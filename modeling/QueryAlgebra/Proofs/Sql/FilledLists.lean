import QueryAlgebra.Proofs.Sql.Issued
import QueryAlgebra.Proofs.Sql.Lists

/-!
# Statements are issued with filled lists

An update deletes the row when nothing is to be set, a replacement always writes the key, and an insert
that has nothing to set on a row that exists does nothing there. So in both dialects whatever reads and
writes issue has filled lists, on every connection, with two exceptions: a document without fields is
inserted into no column, and a projection on no column selects nothing.

* `admits_wellListed`: queries and deletes have filled lists.
* `lists_filled`: all reads and writes.
* `insert_empty_listless`: the insert of a document without fields never has them.
-/

namespace QueryAlgebra

namespace Sql

/-! ## 1. The statements of a table -/

/-- **A statement is written with filled lists,** in both dialects. -/
def Statement.WellListed (statement : Statement) : Prop :=
  ∀ d, TextWellListed d (statement.render d)

theorem Statement.Listed.wellListed {statement : Statement} (h : statement.Listed)
    (hrows : statement.OnRows) : statement.WellListed := fun _ => (wellListed_iff hrows).mpr h

theorem RowTest.made_equals (column : String) (v : Value) : (RowTest.equals column v).Made :=
  fun _ heq => by cases heq

theorem RowTest.made_isIn (column : String) (values : List Value) :
    (RowTest.isIn column values).Made := fun _ heq => by cases heq

theorem StreamPlan.made_tests {M : Type → Type} {plan : StreamPlan M} {table primaryKey : String}
    {test : Option RowTest} (htest : ∀ x ∈ test, ∃ column values, x = .isIn column values) :
    ∀ x ∈ plan.tests table primaryKey test, x.Made := by
  intro x hx
  rcases List.mem_append.mp hx with hx | hx
  · obtain ⟨column, values, rfl⟩ := htest x (Option.mem_toList.mp hx)
    exact RowTest.made_isIn column values
  · cases hfilters : plan.filters with
    | nil => simp [hfilters] at hx
    | cons first others =>
      simp only [hfilters, List.mem_singleton] at hx
      exact fun text heq => by cases hx.symm.trans heq

/-- **The queries and deletes of a table have filled lists.** -/
theorem admits_wellListed {M : Type → Type} (t : Table M) : t.Admits Statement.WellListed where
  row primaryKey key _ :=
    (select_wellListed (List.forall_mem_singleton.mpr (RowTest.made_equals primaryKey key))).mpr
      (Option.some_ne_none []).symm
  rows plan primaryKey test hcolumns htest _ :=
    (select_wellListed (StreamPlan.made_tests htest)).mpr hcolumns
  keys plan primaryKey test htest _ :=
    (select_wellListed (StreamPlan.made_tests htest)).mpr (by simp)
  delete primaryKey key := Statement.Listed.wellListed trivial (RowTest.made_equals primaryKey key)
  deleteAll primaryKey keys := Statement.Listed.wellListed trivial (RowTest.made_isIn primaryKey keys)

/-- The statement that inserts a document has filled lists when the document has a field. -/
theorem insertStatement_wellListed_iff {M : Type → Type} (t : Table M) (d : Dialect)
    (primaryKey : String) (doc : Fields) (conflict : Conflict) :
    TextWellListed d ((t.insertStatement primaryKey doc conflict).render d) ↔ doc ≠ [] := by
  cases conflict with
  | error => exact insert_wellListed false t.name doc
  | replace =>
    have hrows : (Statement.replace t.name primaryKey doc (t.schema.map SchemaField.name)).OnRows :=
      trivial
    exact wellListed_iff hrows
  | update => exact upsert_wellListed t.name primaryKey doc _

/-- A document that changes something has a field. -/
theorem ne_nil_of_isErasure {fields : Fields} (h : fields.isErasure = false) : fields ≠ [] := by
  rintro rfl
  cases h

/-! ## 2. Reads and writes -/

section Runs

variable {σ : Type} (trace : σ → List Statement) (t : Table (Stateful σ))

/-- What is issued from a state on has filled lists. -/
abbrev IssuesWellListed {α : Type} (x : Stateful σ α) (s : σ) : Prop :=
  IssuedBetween trace Statement.WellListed s (Stateful.on x s).2

/-- Tasks that issue statements with filled lists. -/
abbrev ListedTask (x : Stateful σ Value) : Prop :=
  Anyway (fun _ => Issues trace Statement.WellListed) x

/-- **All that a table issues has filled lists,** on every state, whatever the connection answers and
    whichever of its calls fail. Operands may run tasks on the connection too, if what they issue has
    filled lists. -/
structure ListsFilled : Prop where
  /-- An insert, in any mode, of documents that have fields. -/
  insert (docs : Value) (choice : Option Conflict)
    (hdocs : ∀ list, docs.documents = .ok list → [] ∉ list) (s : σ) :
    IssuesWellListed trace (t.insert docs choice) s
  /-- An update, with any patch. -/
  update (scope : Scope) (key : Operand (Stateful σ)) (hkey : key.Tasks (ListedTask trace))
    (patch : Value) (s : σ) : IssuesWellListed trace (t.update scope key patch) s
  /-- A replacement, by any document. -/
  replace (scope : Scope) (key : Operand (Stateful σ)) (hkey : key.Tasks (ListedTask trace))
    (doc : Value) (s : σ) : IssuesWellListed trace (t.replace scope key doc) s
  /-- A read of a table or a selection whose query is on some column, if there is one. -/
  stream (scope : Scope) (keys : Option (KeyScope (Stateful σ)))
    (entries : List (Entry (Stateful σ)))
    (hkeys : ∀ k ∈ keys, OperandsTasks (ListedTask trace) k.keys)
    (hentries : EntriesTasks (ListedTask trace) entries)
    (hcolumns : ColumnlessAs (fun plan => plan.kill = true) scope entries) (s : σ) :
    IssuesWellListed trace (t.stream scope keys entries) s
  /-- The delete of a table or a selection whose query for rows is on some column, if there is one. -/
  deleteStream (scope : Scope) (keys : Option (KeyScope (Stateful σ)))
    (entries : List (Entry (Stateful σ)))
    (hkeys : ∀ k ∈ keys, OperandsTasks (ListedTask trace) k.keys)
    (hentries : EntriesTasks (ListedTask trace) entries)
    (hcolumns : ColumnlessAs (fun plan => plan.kill = true ∨ plan.rest = []) scope entries) (s : σ) :
    IssuesWellListed trace (t.deleteStream scope keys entries) s
  /-- A read of a row, with any queue. -/
  readRow (scope : Scope) (key : Operand (Stateful σ)) (entries : List (Entry (Stateful σ)))
    (hkey : key.Tasks (ListedTask trace)) (hentries : EntriesTasks (ListedTask trace) entries)
    (s : σ) : IssuesWellListed trace (t.readRow scope key entries) s
  /-- The delete of a row. -/
  deleteRow (scope : Scope) (key : Operand (Stateful σ)) (hkey : key.Tasks (ListedTask trace))
    (s : σ) : IssuesWellListed trace (t.deleteRow scope key) s

variable {trace t}

/-- **All that a table issues has filled lists,** on a connection that keeps its statements, apart from
    inserts of documents without fields and queries for rows without columns. -/
theorem lists_filled (h : Traced trace t.connection) : ListsFilled trace t where
  insert docs choice hdocs s := by
    refine (issues_insert h (admits_wellListed t) fun list doc primaryKey hlist hdoc d => ?_) s |>.1
    refine (insertStatement_wellListed_iff t d primaryKey doc _).mpr ?_
    rintro rfl
    exact hdocs list hlist hdoc
  update _ _ hkey patch s := by
    refine (issues_update h (admits_wellListed t) hkey fun fields _ _ _ herase => ?_) s |>.1
    exact Statement.Listed.wellListed (ne_nil_of_isErasure herase) (RowTest.made_equals _ _)
  replace _ _ hkey doc s := by
    refine (issues_replace h (admits_wellListed t) hkey fun fields primaryKey k => ?_) s |>.1
    exact Statement.Listed.wellListed (List.cons_ne_nil _ _) trivial
  stream _ _ _ hkeys hentries hcolumns s :=
    (issues_stream h (admits_wellListed t) hkeys hentries hcolumns s).1
  deleteStream _ _ _ hkeys hentries hcolumns s :=
    (issues_deleteStream h (admits_wellListed t) hkeys hentries hcolumns s).1
  readRow _ _ _ hkey hentries s := (issues_readRow h (admits_wellListed t) hkey hentries s).1
  deleteRow _ _ hkey s := (issues_deleteRow h (admits_wellListed t) hkey s).1

end Runs

/-- A table whose connection keeps its statements. -/
def tracedThings : Table (Stateful (Script × List Statement)) :=
  ⟨(Script.connection .postgres "id").traced, {}, "things", []⟩

/-- Names and values that look like the ends of lists are items all the same. -/
def commaNamed : Fields := [("id", .string "a'), ("), ("a, b", .array [.count 1, .count 2])]

theorem tracedThings_filled :
    let outcome := Stateful.on (tracedThings.insert (.object commaNamed) (some .update)) ({}, [])
    outcome.2.2 = [tracedThings.selectRow "id" (.string "a'), ("), .upsert "things" "id" commaNamed] ∧
      ∀ statement ∈ outcome.2.2, statement.WellListed := by
  intro outcome
  have hdocs : ∀ list, (Value.object commaNamed).documents = .ok list → [] ∉ list := by
    intro list hlist
    cases hlist
    simp [commaNamed]
  have hfilled := (lists_filled (t := tracedThings) (traced_traced _)).insert _ (some .update) hdocs
  obtain ⟨issued, hissued, hlisted⟩ := hfilled ({}, [])
  have hall : outcome.2.2 = issued := hissued
  exact ⟨rfl, hall ▸ hlisted⟩

/-! ## 3. Lists that are empty -/

/-- **The insert of a document without fields has empty lists,** in every mode and both dialects, on
    every connection that names the primary key: it issues one statement, on no column. -/
theorem insert_empty_listless {σ : Type} {trace : σ → List Statement} {t : Table (Stateful σ)}
    (h : Traced trace t.connection) (choice : Option Conflict) {s : σ} {primaryKey : String}
    (hname : (Stateful.on (t.connection.primaryKey t.name) s).1 = .ok primaryKey) :
    ∃ statement, trace (Stateful.on (t.insert (.object []) choice) s).2 = trace s ++ [statement] ∧
      ∀ d, ¬TextWellListed d (statement.render d) := by
  have hdocs : (Value.object []).documents = .ok [[]] := rfl
  have hstored (conflict : Conflict) : t.storedRow primaryKey [] conflict = pure none := by
    cases conflict <;> rfl
  refine ⟨t.insertStatement primaryKey [] (t.config.conflictFor choice), ?_, fun d hwell =>
    (insertStatement_wellListed_iff t d primaryKey [] _).mp hwell rfl⟩
  rw [Table.insert, WriteResult.on_insertAfter_of_ok _ hdocs hname, WriteResult.reportEach,
    Stateful.on_bind, WriteResult.on_report, Table.insertOne, hstored, pure_bind, Stateful.on_bind]
  have hexec := h.exec (t.insertStatement primaryKey [] (t.config.conflictFor choice))
    (Stateful.on (t.connection.primaryKey t.name) s).2
  rw [h.primaryKey] at hexec
  rcases hon : Stateful.on (t.connection.exec _) _ with ⟨e | u, s'⟩ <;> rw [hon] at hexec
  · dsimp only
    cases WriteResult.degrade (.error e) with
    | error e' => exact hexec
    | ok r => exact hexec
  · exact hexec

/-- A table in a dialect, on a scripted connection. -/
def scriptedThings (d : Dialect) : Table Scripted := ⟨Script.connection d "key", {}, "things", []⟩

/-- A document without fields and a projection on no column are written with empty lists. -/
theorem scriptedThings_listless :
    ((Stateful.on ((scriptedThings .sqlite).insert (.object []) (some .error)) {}).2.calls.map
        Call.text = ["INSERT INTO `things` () VALUES ()", "things"] ∧
      ¬TextWellListed .sqlite "INSERT INTO `things` () VALUES ()") ∧
    ((Stateful.on ((scriptedThings .postgres).stream [] none [.pluck []]) {}).2.calls.map Call.text
        = ["SELECT  FROM \"things\"", "things"] ∧
      ¬TextWellListed .postgres "SELECT  FROM \"things\"") := by
  have hinsert : (Statement.insert "things" []).render .sqlite
      = "INSERT INTO `things` () VALUES ()" := by decide +kernel
  have hselect : (Statement.select false (some []) "things" [] none).render .postgres
      = "SELECT  FROM \"things\"" := by decide +kernel
  refine ⟨⟨by decide +kernel, fun hwell => ?_⟩, ⟨by decide +kernel, fun hwell => ?_⟩⟩
  · rw [← hinsert] at hwell
    exact (insert_wellListed false "things" []).mp hwell rfl
  · rw [← hselect] at hwell
    exact (select_wellListed (List.forall_mem_nil _)).mp hwell rfl

end Sql

end QueryAlgebra
