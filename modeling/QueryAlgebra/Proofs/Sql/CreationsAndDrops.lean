import QueryAlgebra.Proofs.Sql.TableCreations

/-!
# Creations and drops in any order

What the catalog of a server holds is told from the tables created before (`Accounted`). So a
creation stops behind its first statement exactly when one of its fields overlaps with an index that
stands, or a table has the name of the index (`creation_completes`).

`Accounted.run` is the step of one change, `accounted_session` the run of many.
-/

namespace QueryAlgebra

namespace Sql

/-! ## 1. Creations and drops in any order -/

section Runs

variable {σ : Type} {catalog : σ → List CatalogEntry} {connection : Connection (Stateful σ)}
  (h : Catalogued catalog connection)

/-- A change of a database. -/
inductive Change where
  | create (name : String) (schema : Schema)
  | drop (name : String)

/-- The run of a change. -/
def Change.run (connection : Connection (Stateful σ)) (config : Config) : Change → Stateful σ Unit
  | .create name schema => do
    let _ ← createTable connection config name schema
    return ()
  | .drop name => dropTable connection name

/-- The state after changes, one after another. Those that fail leave behind what they have done. -/
def session (connection : Connection (Stateful σ)) (config : Config) (changes : List Change) (s : σ) :
    σ :=
  changes.foldl (fun s change => (Stateful.on (change.run connection config) s).2) s

/-- **Where the entries of a catalog come from:** tables and indexes from the tables created before. -/
structure Accounted (past : List Change) (catalog : List CatalogEntry) : Prop where
  table {name : String} {columns : List String} (hr : .table name columns ∈ catalog) :
    ∃ schema, .create name schema ∈ past
  index {name table column : String} (hr : .index name table column ∈ catalog) :
    name = indexName table column ∧ (∃ columns, .table table columns ∈ catalog) ∧
      ∃ schema, .create table schema ∈ past ∧ column ∈ indexedNames schema
  own {name table : String} (hr : .own name table ∈ catalog) : ∀ stem, name ≠ stem ++ "_idx"

namespace Accounted

variable {past : List Change} {before after : List CatalogEntry}

theorem empty : Accounted [] [] where
  table hr := absurd hr List.not_mem_nil
  index hr := absurd hr List.not_mem_nil
  own hr := absurd hr List.not_mem_nil

theorem later (hb : Accounted past before) (change : Change) : Accounted (past ++ [change]) before where
  table hr := by
    obtain ⟨schema, hcreate⟩ := hb.table hr
    exact ⟨schema, List.mem_append_left _ hcreate⟩
  index hr := by
    obtain ⟨hname, htable, schema, hcreate, hcolumn⟩ := hb.index hr
    exact ⟨hname, htable, schema, List.mem_append_left _ hcreate, hcolumn⟩
  own hr := hb.own hr

theorem creates (hb : Accounted past before) {name : String} {schema : Schema}
    {outcome : Except Error Unit} (hc : Creates name schema before outcome after) :
    Accounted (past ++ [.create name schema]) after where
  table hr := by
    rcases hc.mem hr with hr | hr | ⟨_, hr, -⟩ | ⟨_, -, hr⟩
    · exact (hb.later _).table hr
    · obtain ⟨rfl, -⟩ := CatalogEntry.table.inj hr
      exact ⟨schema, List.mem_append_right _ List.mem_cons_self⟩
    · cases hr
    · cases hr
  index hr := by
    rcases hc.mem hr with hr | hr | ⟨_, hr, -⟩ | ⟨field, hfield, hr⟩
    · obtain ⟨hname, ⟨columns, htable⟩, hcreate⟩ := (hb.later (.create name schema)).index hr
      exact ⟨hname, ⟨columns, hc.keeps htable⟩, hcreate⟩
    · cases hr
    · cases hr
    · obtain ⟨rfl, rfl, rfl⟩ := CatalogEntry.index.inj hr
      exact ⟨rfl, ⟨_, hc.table_mem⟩, schema, List.mem_append_right _ List.mem_cons_self, hfield⟩
  own hr := by
    rcases hc.mem hr with hr | hr | ⟨given, hr, hgiven⟩ | ⟨_, -, hr⟩
    · exact hb.own hr
    · cases hr
    · obtain ⟨rfl, -⟩ := CatalogEntry.own.inj hr
      exact hgiven
    · cases hr

theorem drops (hb : Accounted past before) (name : String) :
    Accounted past (before.filter (fun r => r.owner ≠ name)) where
  table hr := hb.table (List.mem_filter.mp hr).1
  index hr := by
    obtain ⟨hr, howner⟩ := List.mem_filter.mp hr
    obtain ⟨hname, ⟨columns, htable⟩, hcreate⟩ := hb.index hr
    exact ⟨hname, ⟨columns, List.mem_filter.mpr ⟨htable, howner⟩⟩, hcreate⟩
  own hr := hb.own (List.mem_filter.mp hr).1

include h in
/-- **The step of one change.** -/
theorem run (config : Config) (change : Change) {s : σ} (hs : Accounted past (catalog s)) :
    Accounted (past ++ [change])
      (catalog (Stateful.on (change.run connection config) s).2) := by
  cases change with
  | create name schema =>
    have hstate : (Stateful.on (Change.run connection config (.create name schema)) s).2 =
        (Stateful.on (createTable connection config name schema) s).2 := by
      rw [Change.run, Stateful.on_bind]
      rcases Stateful.on (createTable connection config name schema) s with ⟨e | t, s'⟩ <;> rfl
    rw [hstate]
    by_cases hmade : schema.validate = .ok () ∧
        (Stateful.on (connection.exec (.createTable name (columnDefs schema))) s).1 = .ok ()
    · obtain ⟨outcome, -, hc⟩ := creates_createTable h config hmade.1 hmade.2
      exact hs.creates hc
    · rw [catalog_createTable_of_refused h config fun hvalid haccepted => hmade ⟨hvalid, haccepted⟩]
      exact hs.later _
  | drop name =>
    cases hdrop : (Stateful.on (connection.exec (.dropTable name)) s).1 with
    | error e =>
      rw [Change.run, dropTable, h.refused hdrop]
      exact hs.later _
    | ok u =>
      rw [Change.run, dropTable, h.dropped hdrop]
      exact (hs.drops name).later _

end Accounted

include h in
/-- **The run of many changes.** -/
theorem accounted_session (config : Config) {past : List Change} (changes : List Change) {s : σ}
    (hs : Accounted past (catalog s)) :
    Accounted (past ++ changes) (catalog (session connection config changes s)) := by
  induction changes generalizing past s with
  | nil => simpa [session] using hs
  | cons change changes ih => simpa [session] using ih (hs.run h config change)

/-- **Something that stands is in the way of a creation:** an index of another pair that overlaps with
    the table and one of its fields, or a table with the name of one of the new indexes. -/
def Obstructed (catalog : List CatalogEntry) (table field : String) : Prop :=
  (∃ index other column, .index index other column ∈ catalog ∧ Overlap table field other column) ∨
    ∃ columns, .table (indexName table field) columns ∈ catalog

/-- The name of an index of a new table is taken exactly when something is in its way. -/
theorem taken_indexName_iff {past : List Change} {catalog : List CatalogEntry}
    (hcatalog : Accounted past catalog) {table : String} (hfree : ¬ Taken catalog table)
    (field : String) : Taken catalog (indexName table field) ↔ Obstructed catalog table field := by
  constructor
  · intro ⟨r, hr, hname⟩
    cases r with
    | table name columns =>
      obtain rfl : name = indexName table field := hname
      exact .inr ⟨columns, hr⟩
    | index index other column =>
      obtain ⟨rfl, ⟨columns, hother⟩, -⟩ := hcatalog.index hr
      rcases indexName_eq_iff.mp hname.symm with ⟨rfl, -⟩ | hoverlap
      · exact absurd ⟨_, hother, rfl⟩ hfree
      · exact .inl ⟨_, other, column, hr, hoverlap⟩
    | own name other => exact absurd hname (hcatalog.own hr _)
  · rintro (⟨index, other, column, hr, hoverlap⟩ | ⟨columns, hr⟩)
    · refine ⟨_, hr, ?_⟩
      rw [indexName_eq_iff.mpr (.inr hoverlap)]
      exact (hcatalog.index hr).1
    · exact ⟨_, hr, rfl⟩

/-- **Creations that complete.** Two different pairs have one index name exactly when they overlap.
    After any creations and drops, a creation whose table is accepted completes exactly when nothing
    stands in the way of its indexes. When it does not, the table stands without one of its indexes,
    and a table created before is the cause: with a field that overlaps, or by its name. -/
theorem creation_completes {catalog : σ → List CatalogEntry} {connection : Connection (Stateful σ)}
    (h : Catalogued catalog connection) (config : Config) {start : σ} (hstart : catalog start = [])
    (changes : List Change) {name : String} {schema : Schema} (hvalid : schema.validate = .ok ())
    (haccepted : (Stateful.on (connection.exec (.createTable name (columnDefs schema)))
      (session connection config changes start)).1 = .ok ()) :
    (∀ table field table' field', (table, field) ≠ (table', field') →
      (indexName table field = indexName table' field' ↔ Overlap table field table' field')) ∧
    (let before := session connection config changes start
     let creation := Stateful.on (createTable connection config name schema) before
     ((∃ t, creation.1 = .ok t) ↔
        ∀ field ∈ indexedNames schema, ¬ Obstructed (catalog before) name field) ∧
      ∀ e, creation.1 = .error e →
        .table name (schema.map SchemaField.name) ∈ catalog creation.2 ∧
        ∃ field ∈ indexedNames schema, (∀ index, .index index name field ∉ catalog creation.2) ∧
          ((∃ other schema' column, .create other schema' ∈ changes ∧ column ∈ indexedNames schema' ∧
              Overlap name field other column) ∨
            ∃ schema', .create (indexName name field) schema' ∈ changes)) := by
  refine ⟨fun table field table' field' hne => ?_, ?_⟩
  · rw [indexName_eq_iff, or_iff_right]
    rintro ⟨rfl, rfl⟩
    exact hne rfl
  intro before creation
  have haccounted : Accounted changes (catalog before) := by
    have hnone : Accounted [] (catalog start) := hstart ▸ Accounted.empty
    simpa using accounted_session h config changes hnone
  obtain ⟨outcome, houtcome, hc⟩ := creates_createTable h config hvalid haccepted
  refine ⟨?_, fun e he => ⟨hc.table_mem, ?_⟩⟩
  · have hok : (∃ t, creation.1 = .ok t) ↔ outcome = .ok () := by
      rw [houtcome]
      cases outcome <;> simp [Except.map]
    rw [hok, hc.ok_iff]
    exact forall₂_congr fun field _ => (taken_indexName_iff haccounted hc.free field).not
  · have herror : outcome = .error e := by
      rw [houtcome] at he
      cases outcome with
      | error e' => simpa [Except.map] using he
      | ok u => cases he
    obtain ⟨field, hfield, htaken, hnone⟩ := hc.error herror
    refine ⟨field, hfield, fun index hindex => ?_, ?_⟩
    · obtain ⟨-, ⟨columns, htable⟩, -⟩ := haccounted.index (hnone index hindex)
      exact hc.free ⟨_, htable, rfl⟩
    · rcases (taken_indexName_iff haccounted hc.free field).mp htaken with
        ⟨index, other, column, hr, hoverlap⟩ | ⟨columns, hr⟩
      · obtain ⟨-, -, schema', hcreate, hcolumn⟩ := haccounted.index hr
        exact .inl ⟨other, schema', column, hcreate, hcolumn, hoverlap⟩
      · exact .inr (haccounted.table hr)

end Runs

/-! ## 2. A server in memory -/

/-- A server that keeps its catalog and nothing else. A primary key has an index named after its table. -/
def catalogServer : Connection (Stateful (List CatalogEntry)) where
  first _ := return none
  all _ := return []
  exec
    | .createTable name columns => do
      let entries ← get
      if Taken entries name ∨ ¬ (columns.map ColumnDef.name).Nodup then
        throw (.storage ("cannot create table " ++ name))
      else
        set (entries ++ [.table name (columns.map ColumnDef.name), .own (name ++ "_pkey") name])
    | .createIndex name table column => do
      let entries ← get
      if Taken entries name then throw (.storage ("cannot create index " ++ name))
      else set (entries ++ [.index name table column])
    | .dropTable name => do
      let entries ← get
      set (entries.filter (fun r => r.owner ≠ name))
    | _ => return ()
  primaryKey _ := return "id"

theorem givenByServer_own (table : String) : GivenByServer table (.own (table ++ "_pkey") table) := by
  refine ⟨_, rfl, fun stem h => ?_⟩
  have hlast := congrArg (fun s => s.toList.getLast?) h
  simp at hlast

theorem catalogServer_createTable (name : String) (columns : List ColumnDef) (s : List CatalogEntry) :
    Stateful.on (catalogServer.exec (.createTable name columns)) s =
      if Taken s name ∨ ¬ (columns.map ColumnDef.name).Nodup then
        (.error (.storage ("cannot create table " ++ name)), s)
      else (.ok (), s ++ [.table name (columns.map ColumnDef.name), .own (name ++ "_pkey") name]) := by
  simp only [catalogServer, Stateful.on_bind, Stateful.on_get]
  split_ifs <;> rfl

theorem catalogServer_createIndex (name table column : String) (s : List CatalogEntry) :
    Stateful.on (catalogServer.exec (.createIndex name table column)) s =
      if Taken s name then (.error (.storage ("cannot create index " ++ name)), s)
      else (.ok (), s ++ [.index name table column]) := by
  simp only [catalogServer, Stateful.on_bind, Stateful.on_get]
  split_ifs <;> rfl

theorem catalogServer_catalogued : Catalogued id catalogServer where
  refused {statement s e} h := by
    cases statement with
    | createTable name columns =>
      rw [catalogServer_createTable] at h ⊢
      split_ifs at h ⊢
      rfl
    | createIndex name table column =>
      rw [catalogServer_createIndex] at h ⊢
      split_ifs at h ⊢
      rfl
    | dropTable name => cases h
    | _ => rfl
  created {name columns s} h := by
    rw [catalogServer_createTable] at h ⊢
    split_ifs at h ⊢ with hrefused
    obtain ⟨hfree, hnodup⟩ := not_or.mp hrefused
    refine ⟨hfree, not_not.mp hnodup, [.own (name ++ "_pkey") name], rfl, ?_⟩
    exact List.forall_mem_singleton.mpr (givenByServer_own name)
  taken {name table column s} _ h := by
    have htaken : Taken s name := h
    rw [catalogServer_createIndex, if_pos htaken]
    exact ⟨_, rfl⟩
  indexed {name table column s} _ h := by
    have hfree : ¬ Taken s name := h
    rw [catalogServer_createIndex, if_neg hfree]
    exact ⟨rfl, rfl⟩
  dropped _ := rfl

/-- A table with an indexed field beside its key. -/
def keyed (field : String) : Schema := [⟨"id", .string, true⟩, ⟨field, .string, true⟩]

/-- **Tables beside each other.** Behind a table `a` with the field `b_c`, the table `notes` gets its
    index, and the table `a_b` with the field `c` does not. -/
theorem notes_complete :
    let before := session catalogServer {} [.create "a" (keyed "b_c")] []
    (∃ t, (Stateful.on (createTable catalogServer {} "notes" (keyed "tag")) before).1 = .ok t) ∧
      ¬ ∃ t, (Stateful.on (createTable catalogServer {} "a_b" (keyed "c")) before).1 = .ok t := by
  intro before
  have hentries {r : CatalogEntry} (hr : r ∈ before) :
      r ∈ [.table "a" ["id", "b_c"], .own "a_pkey" "a", .index "a_b_c_idx" "a" "b_c"] := hr
  constructor
  · refine (creation_completes catalogServer_catalogued {} rfl [.create "a" (keyed "b_c")] rfl
      rfl).2.1.mpr fun field hfield hobstructed => ?_
    obtain rfl : field = "tag" := List.mem_singleton.mp hfield
    rcases hobstructed with ⟨index, other, column, hr, hoverlap⟩ | ⟨columns, hr⟩
    · obtain rfl : other = "a" := by
        have hentry : index = "a_b_c_idx" ∧ other = "a" ∧ column = "b_c" := by
          simpa using hentries hr
        exact hentry.2.1
      exact not_overlap_of_tables (by decide) (by decide) hoverlap
    · have hentry : indexName "notes" "tag" = "a" ∧ columns = ["id", "b_c"] := by
        simpa using hentries hr
      exact absurd hentry.1 (by decide)
  · rw [(creation_completes catalogServer_catalogued {} rfl [.create "a" (keyed "b_c")] rfl rfl).2.1]
    intro hfree
    refine hfree "c" List.mem_cons_self (.inl ⟨"a_b_c_idx", "a", "b_c", ?_, "b", .inr ⟨rfl, rfl⟩⟩)
    exact List.mem_append_right _ List.mem_cons_self

/-- **Two pairs, one name.** The index of the field `b_c` of a table `a` and the index of the field `c`
    of a table `a_b` are created under one name. The second creation stops behind its table. -/
theorem one_name_for_two :
    ("a", "b_c") ≠ ("a_b", "c") ∧
      (Stateful.on (createTable (Script.connection .sqlite "key") {} "a" (keyed "b_c"))
        {}).2.calls.head?.map Call.text = some "CREATE INDEX `a_b_c_idx` ON `a` (`b_c`)" ∧
      (Stateful.on (createTable (Script.connection .sqlite "key") {} "a_b" (keyed "c"))
        {}).2.calls.head?.map Call.text = some "CREATE INDEX `a_b_c_idx` ON `a_b` (`c`)" ∧
      (let before := session catalogServer {} [.create "a" (keyed "b_c")] []
       let creation := Stateful.on (createTable catalogServer {} "a_b" (keyed "c")) before
       creation.1.map (fun _ => ()) = .error (.storage "cannot create index a_b_c_idx") ∧
        creation.2 = before ++ [.table "a_b" ["id", "c"], .own "a_b_pkey" "a_b"]) := by
  refine ⟨by decide, rfl, rfl, rfl, rfl⟩

end Sql

end QueryAlgebra
