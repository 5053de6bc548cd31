import QueryAlgebra.Proofs.Sql.Issued
import QueryAlgebra.Proofs.Value.Documents

/-!
# Written rows keep their keys

An update and a replacement are given the key of the row beside the document, and the document may name
the primary key too. A replacement puts the key it is given into the row, and leaves the primary key out
of what it sets on a row that exists. An update copies all fields of its patch, after a check that lets
the key of the row pass, and null. So it keeps the key unless the patch gives the primary key as null.

* `Statement.settings`: what a statement assigns to columns.
* `Statement.keepsKey_update_iff`: the patches with which an update keeps the key.
* `rows_keep_keys`: everything that updates and replacements issue.
-/

namespace QueryAlgebra

namespace Sql

/-! ## 1. What a statement assigns -/

/-- What an insert of a row sets on a column of a row that exists. -/
def Dialect.Assigned.setting (row : Fields) : Dialect.Assigned → String × Value
  | .excluded column => (column, (row.get? column).getD .null)
  | .reset column => (column, .null)

namespace Statement

/-- **What a statement assigns to columns,** in the dialect that it is written in: the values of a row
    that is inserted, and what is set on a row that exists. -/
def settings (d : Dialect) : Statement → List (String × Value)
  | .insert _ row => row
  | .upsert _ primaryKey row =>
    row ++ (Dialect.assigned primaryKey row.names []).map (Dialect.Assigned.setting row)
  | .replace _ primaryKey row schemaColumns =>
    match d with
    | .sqlite => row
    | .postgres =>
      row ++ (Dialect.assigned primaryKey row.names schemaColumns).map (Dialect.Assigned.setting row)
  | .update _ changes _ => changes
  | .select _ _ _ _ _ | .delete _ _ | .createTable _ _ | .createIndex _ _ _ | .dropTable _
  | .listTables => []

/-- **A statement keeps a key:** in both dialects, what it assigns to the primary key, if anything, is
    loosely equal to it. -/
def KeepsKey (primaryKey : String) (key : Value) (statement : Statement) : Prop :=
  ∀ d v, (primaryKey, v) ∈ statement.settings d → v.looseEq key = true

/-- What is set on a row that exists is not the primary key. -/
theorem fst_ne_of_mem_assigned {primaryKey : String} {columns resetColumns : List String}
    {row : Fields} {f : String × Value}
    (h : f ∈ (Dialect.assigned primaryKey columns resetColumns).map
      (Dialect.Assigned.setting row)) : f.1 ≠ primaryKey := by
  obtain ⟨assigned, hassigned, rfl⟩ := List.mem_map.mp h
  rcases List.mem_append.mp hassigned with hmem | hmem
  · obtain ⟨column, hcolumn, rfl⟩ := List.mem_map.mp hmem
    exact of_decide_eq_true (List.mem_filter.mp hcolumn).2
  · obtain ⟨column, hcolumn, rfl⟩ := List.mem_map.mp hmem
    exact (of_decide_eq_true (List.mem_filter.mp hcolumn).2).1

/-- **A replacement keeps the key that it is given,** whatever the document names. -/
theorem keepsKey_replacement {M : Type → Type} (t : Table M) (doc : Fields) (primaryKey : String)
    {key : Value} (hkey : key.Proper) :
    (t.replacement doc primaryKey key).KeepsKey primaryKey key := by
  intro d v hv
  have hrow (h : (primaryKey, v) ∈ doc.keyed primaryKey key) : v.looseEq key = true := by
    rw [Fields.eq_of_mem_keyed h]
    exact Value.looseEq_self key hkey
  cases d with
  | sqlite => exact hrow hv
  | postgres =>
    rcases List.mem_append.mp hv with hv | hv
    · exact hrow hv
    · exact absurd rfl (fst_ne_of_mem_assigned hv)

/-- **An update that passes the check keeps the key exactly when its patch does not give the primary key
    as null,** or the key is null itself. -/
theorem keepsKey_update_iff {table primaryKey : String} {key : Value} {fields : Fields}
    {test : RowTest} (hnames : (fields.map Prod.fst).Nodup)
    (hcheck : fields.checkKey primaryKey key = .ok ()) :
    (Statement.update table fields test).KeepsKey primaryKey key ↔
      (fields.get? primaryKey = some .null → key = .null) := by
  constructor
  · intro hkeeps hnull
    have hequal := hkeeps .sqlite .null (Fields.mem_of_get? hnull)
    cases key <;> simp_all [Value.looseEq]
  · intro hgiven d v hv
    have hget := Value.get?_of_mem_nodup hnames hv
    rcases Fields.of_checkKey hcheck hget with hnull | hequal
    · obtain rfl : v = .null := by cases v <;> simp_all [Value.isNull]
      rw [hgiven hget]
      rfl
    · exact hequal

end Statement

/-! ## 2. Updates and replacements -/

section Rows

variable {σ : Type} (trace : σ → List Statement) (t : Table (Stateful σ))

/-- **Everything that a write of a row issues keeps the key of the row,** once the key is resolved and
    the primary key is named. -/
def KeepsRow (scope : Scope) (key : Operand (Stateful σ)) (s : σ) (x : Stateful σ WriteResult) : Prop :=
  IssuedBetween trace
    (fun statement => ∀ primaryKey k,
      (Stateful.on (t.rowTarget scope key) s).1 = .ok (primaryKey, k) →
        statement.KeepsKey primaryKey k)
    (Stateful.on (t.rowTarget scope key) s).2 (Stateful.on x s).2

/-- **Writes of a row never move it to another key,** on every state, whatever the connection answers
    and whichever of its calls fail. -/
structure RowsKeepKeys : Prop where
  /-- An update, unless its patch gives the primary key as null. -/
  update (scope : Scope) (key : Operand (Stateful σ)) (fields : Fields) (s : σ)
    (hnames : (fields.map Prod.fst).Nodup)
    (hgiven : ∀ primaryKey k, (Stateful.on (t.rowTarget scope key) s).1 = .ok (primaryKey, k) →
      fields.get? primaryKey = some .null → k = .null) :
    KeepsRow trace t scope key s (t.update scope key (.object fields))
  /-- A replacement, by any document. -/
  replace (scope : Scope) (key : Operand (Stateful σ)) (fields : Fields) (s : σ)
    (hproper : ∀ primaryKey k, (Stateful.on (t.rowTarget scope key) s).1 = .ok (primaryKey, k) →
      k.Proper) :
    KeepsRow trace t scope key s (t.replace scope key (.object fields))
  /-- A patch or a document that is no object is refused before any call. -/
  refused (scope : Scope) (key : Operand (Stateful σ)) (doc : Value) (s : σ)
    (hdoc : ∀ fields, doc ≠ .object fields) :
    (Stateful.on (t.update scope key doc) s).2 = s ∧ (Stateful.on (t.replace scope key doc) s).2 = s

variable {trace t}

/-- Queries and deletes assign nothing. -/
theorem admits_keepsKey {p : String → Value → Prop} :
    t.Admits fun statement => ∀ primaryKey k, p primaryKey k → statement.KeepsKey primaryKey k where
  row _ _ _ _ _ _ _ hv := absurd hv List.not_mem_nil
  rows _ _ _ _ _ _ _ _ _ _ hv := absurd hv List.not_mem_nil
  keys _ _ _ _ _ _ _ _ _ hv := absurd hv List.not_mem_nil
  delete _ _ _ _ _ _ _ hv := absurd hv List.not_mem_nil
  deleteAll _ _ _ _ _ _ _ hv := absurd hv List.not_mem_nil

/-- The delete of a row assigns nothing. -/
theorem keepsRow_deleteRow (h : Traced trace t.connection) (scope : Scope)
    (key : Operand (Stateful σ)) (s : σ) :
    KeepsRow trace t scope key s (t.deleteRow scope key) :=
  issued_after_rowTarget fun target _ => issues_deleteAt h admits_keepsKey target.1 target.2

/-- **Updates and replacements keep the keys of their rows,** on a connection that keeps its
    statements, unless an update is given the primary key as null. -/
theorem rows_keep_keys (h : Traced trace t.connection) : RowsKeepKeys trace t where
  update scope key fields s hnames hgiven := by
    by_cases herase : fields.isErasure = true
    · have hdelete : t.update scope key (.object fields) = t.deleteRow scope key := if_pos herase
      exact hdelete ▸ keepsRow_deleteRow h scope key s
    · have hupdate : t.update scope key (.object fields) = WriteResult.report (do
          let target ← t.rowTarget scope key
          t.updateAt fields target.1 target.2) := if_neg herase
      unfold KeepsRow
      rw [hupdate]
      refine issued_after_rowTarget fun target htarget =>
        issues_updateAt h admits_keepsKey fun hcheck primaryKey k htarget' => ?_
      cases Except.ok.inj (htarget.symm.trans htarget')
      exact (Statement.keepsKey_update_iff hnames hcheck).mpr (hgiven primaryKey k htarget)
  replace scope key fields s hproper := by
    by_cases herase : fields.isErasure = true
    · have hdelete : t.replace scope key (.object fields) = t.deleteRow scope key := if_pos herase
      exact hdelete ▸ keepsRow_deleteRow h scope key s
    · have hreplace : t.replace scope key (.object fields) = WriteResult.report (do
          let target ← t.rowTarget scope key
          t.replaceAt fields target.1 target.2) := if_neg herase
      unfold KeepsRow
      rw [hreplace]
      refine issued_after_rowTarget fun target htarget =>
        issues_replaceAt h admits_keepsKey fun primaryKey k htarget' => ?_
      cases Except.ok.inj (htarget.symm.trans htarget')
      exact Statement.keepsKey_replacement t fields primaryKey (hproper primaryKey k htarget)
  refused scope key doc s hdoc := by
    cases doc with
    | object fields => exact absurd rfl (hdoc fields)
    | _ => exact ⟨rfl, rfl⟩

end Rows

/-- A table of sizes, in Postgres, whose connection keeps its statements. -/
def tracedSizes : Table (Stateful (Script × List Statement)) :=
  ⟨(Script.connection .postgres "id").traced, {}, "sizes", []⟩

/-- A connection whose first query answers the row of the key one. -/
def smallOne : Script where
  results := [[[("id", .count 1), ("size", .string "small")]]]

/-- A patch that gives the key in another form. -/
def grown : Fields := [("id", .number (.double (.ofInt 1 (by decide)))), ("size", .string "big")]

/-- The key may be given in another form: what the update assigns to it is loosely equal to it. -/
theorem tracedSizes_keep_key :
    let outcome := Stateful.on (tracedSizes.update [] (.literal (.count 1)) (.object grown))
      (smallOne, [])
    outcome.2.2.map (Statement.render .postgres) = ["SELECT * FROM \"sizes\" WHERE \"id\" = '1'",
        "UPDATE \"sizes\" SET \"id\" = 1.0, \"size\" = 'big' WHERE \"id\" = '1'"] ∧
      ∀ statement ∈ outcome.2.2, statement.KeepsKey "id" (.count 1) := by
  dsimp only
  have hgiven : ∀ primaryKey k,
      (Stateful.on (tracedSizes.rowTarget [] (.literal (.count 1))) (smallOne, [])).1
        = .ok (primaryKey, k) → grown.get? primaryKey = some .null → k = .null := by
    intro primaryKey k htarget hnull
    cases htarget
    cases hnull
  have hnames : (grown.map Prod.fst).Nodup := by decide
  obtain ⟨issued, hissued, hall⟩ :=
    (rows_keep_keys (t := tracedSizes) (traced_traced _)).update [] _ grown _ hnames hgiven
  have hbefore : (Stateful.on (tracedSizes.rowTarget [] (.literal (.count 1))) (smallOne, [])).2.2
      = [] := rfl
  rw [hbefore, List.nil_append] at hissued
  rw [← hissued] at hall
  exact ⟨by decide +kernel, fun statement hmem => hall statement hmem "id" (.count 1) rfl⟩

/-- A patch that gives the primary key as null. -/
def cleared : Fields := [("id", .null), ("size", .string "big")]

/-- **An update whose patch gives the primary key as null passes the check,** and sets the key of the
    row to null. -/
theorem cleared_moves_row :
    let outcome := Stateful.on (tracedSizes.update [] (.literal (.count 1)) (.object cleared))
      (smallOne, [])
    outcome.1 = .ok { replaced := 1 } ∧
      outcome.2.2.map (Statement.render .postgres) = ["SELECT * FROM \"sizes\" WHERE \"id\" = '1'",
        "UPDATE \"sizes\" SET \"id\" = NULL, \"size\" = 'big' WHERE \"id\" = '1'"] ∧
      ∃ statement ∈ outcome.2.2, ¬statement.KeepsKey "id" (.count 1) := by
  refine ⟨rfl, by decide +kernel, .update "sizes" cleared (.equals "id" (.count 1)),
    List.mem_cons_of_mem _ List.mem_cons_self, fun hkeeps => ?_⟩
  exact absurd (hkeeps .postgres .null List.mem_cons_self) (by decide)

end Sql

end QueryAlgebra
