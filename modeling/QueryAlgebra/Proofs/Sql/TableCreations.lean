import QueryAlgebra.Proofs.Outcome
import QueryAlgebra.Proofs.Sql.IndexNames

/-!
# What becomes of a creation

A table is created by several statements: one for its columns, and one for each of its indexes. A
server keeps one set of names for all its tables and indexes, so which of the indexes are refused is
told from its catalog alone.

* `Catalogued`: what is assumed of a server.
* `Indexes`: the indexes of one table, one after another. `indexes_createIndexes` is its run.
* `Creates`: a creation whose table is made. `creates_createTable` is its run.
-/

namespace QueryAlgebra

namespace Sql

/-! ## 1. Columns and indexed fields -/

theorem columnDefs_names (schema : Schema) :
    (columnDefs schema).map ColumnDef.name = schema.map SchemaField.name := by
  simp [columnDefs, Function.comp_def]

theorem indexedNames_sublist (schema : Schema) :
    (indexedNames schema).Sublist (schema.map SchemaField.name) :=
  List.filter_sublist.map _

/-! ## 2. Servers -/

/-- An entry of the catalog of a server. -/
inductive CatalogEntry where
  /-- A table, with its columns. -/
  | table (name : String) (columns : List String)
  /-- An index on a column of a table. -/
  | index (name table column : String)
  /-- An index that the server gives a table for its primary key. -/
  | own (name table : String)
deriving DecidableEq, Repr

namespace CatalogEntry

/-- The name of an entry. -/
def name : CatalogEntry → String
  | .table name _ | .index name _ _ | .own name _ => name

/-- The table that an entry goes with. -/
def owner : CatalogEntry → String
  | .table owner _ | .index _ owner _ | .own _ owner => owner

end CatalogEntry

/-- A name that stands in a catalog. Tables and indexes share their names. -/
def Taken (catalog : List CatalogEntry) (name : String) : Prop := ∃ r ∈ catalog, r.name = name

instance (catalog : List CatalogEntry) (name : String) : Decidable (Taken catalog name) :=
  inferInstanceAs (Decidable (∃ r ∈ catalog, r.name = name))

theorem taken_append {catalog more : List CatalogEntry} {name : String} :
    Taken (catalog ++ more) name ↔ Taken catalog name ∨ Taken more name := by
  simp [Taken, or_and_right, exists_or]

/-- A column of a table that stands in a catalog. -/
def HasColumn (catalog : List CatalogEntry) (table column : String) : Prop :=
  ∃ columns, .table table columns ∈ catalog ∧ column ∈ columns

/-- An index that a server gives a table for its primary key. Its name does not end like the names that
    indexes are given here. -/
def GivenByServer (table : String) (r : CatalogEntry) : Prop :=
  ∃ given, r = .own given table ∧ ∀ stem, given ≠ stem ++ "_idx"

section Runs

variable {σ : Type}

/-- **What is assumed of a server.** A statement that is refused leaves the catalog as it is. A table is
    made only under a name that is free and with columns that differ. An index on a column of a table is
    made exactly when its name is free. A table is dropped with all that goes with it. -/
structure Catalogued (catalog : σ → List CatalogEntry) (connection : Connection (Stateful σ)) :
    Prop where
  refused {statement : Statement} {s : σ} {e : Error}
    (h : (Stateful.on (connection.exec statement) s).1 = .error e) :
    catalog (Stateful.on (connection.exec statement) s).2 = catalog s
  created {name : String} {columns : List ColumnDef} {s : σ}
    (h : (Stateful.on (connection.exec (.createTable name columns)) s).1 = .ok ()) :
    ¬ Taken (catalog s) name ∧ (columns.map ColumnDef.name).Nodup ∧
      ∃ own, catalog (Stateful.on (connection.exec (.createTable name columns)) s).2 =
          catalog s ++ .table name (columns.map ColumnDef.name) :: own ∧
        ∀ r ∈ own, GivenByServer name r
  taken {name table column : String} {s : σ} (hcolumn : HasColumn (catalog s) table column)
    (h : Taken (catalog s) name) :
    ∃ e, (Stateful.on (connection.exec (.createIndex name table column)) s).1 = .error e
  indexed {name table column : String} {s : σ} (hcolumn : HasColumn (catalog s) table column)
    (h : ¬ Taken (catalog s) name) :
    (Stateful.on (connection.exec (.createIndex name table column)) s).1 = .ok () ∧
      catalog (Stateful.on (connection.exec (.createIndex name table column)) s).2 =
        catalog s ++ [.index name table column]
  dropped {name : String} {s : σ}
    (h : (Stateful.on (connection.exec (.dropTable name)) s).1 = .ok ()) :
    catalog (Stateful.on (connection.exec (.dropTable name)) s).2 =
      (catalog s).filter (fun r => r.owner ≠ name)

/-! ## 3. The indexes of a table -/

/-- **What becomes of the indexes of a table,** one after another, and of the catalog. The first name
    that is taken ends them. -/
inductive Indexes (table : String) :
    List CatalogEntry → List String → Except Error Unit → List CatalogEntry → Prop
  | done (before : List CatalogEntry) : Indexes table before [] (.ok ()) before
  | refused {before : List CatalogEntry} {field : String} (fields : List String) (e : Error)
      (h : Taken before (indexName table field)) :
      Indexes table before (field :: fields) (.error e) before
  | made {before after : List CatalogEntry} {field : String} {fields : List String}
      {outcome : Except Error Unit} (h : ¬ Taken before (indexName table field))
      (rest : Indexes table (before ++ [.index (indexName table field) table field]) fields outcome
        after) :
      Indexes table before (field :: fields) outcome after

namespace Indexes

variable {table : String} {before after : List CatalogEntry} {fields : List String}
  {outcome : Except Error Unit}

/-- What stood before stands after. -/
theorem keeps (h : Indexes table before fields outcome after) {r : CatalogEntry} (hr : r ∈ before) :
    r ∈ after := by
  induction h with
  | done before => exact hr
  | refused fields e h => exact hr
  | made h rest ih => exact ih (List.mem_append_left _ hr)

/-- What is new is an index on one of the fields. -/
theorem mem (h : Indexes table before fields outcome after) {r : CatalogEntry} (hr : r ∈ after) :
    r ∈ before ∨ ∃ field ∈ fields, r = .index (indexName table field) table field := by
  induction h with
  | done before => exact .inl hr
  | refused fields e h => exact .inl hr
  | @made before after field fields outcome h rest ih =>
    rcases ih hr with hr | ⟨other, hother, rfl⟩
    · rcases List.mem_append.mp hr with hr | hr
      · exact .inl hr
      · exact .inr ⟨field, List.mem_cons_self, List.mem_singleton.mp hr⟩
    · exact .inr ⟨other, List.mem_cons_of_mem _ hother, rfl⟩

/-- The index that was made takes the name of no other field. -/
theorem taken_made_iff {field other : String} (hne : other ≠ field) :
    Taken (before ++ [.index (indexName table field) table field]) (indexName table other) ↔
      Taken before (indexName table other) := by
  have hname : indexName table field ≠ indexName table other :=
    fun h => hne (indexName_inj_right.mp h).symm
  rw [taken_append]
  simp [Taken, CatalogEntry.name, hname]

/-- **All indexes are made exactly when all their names are free** in the catalog of before. -/
theorem ok_iff (h : Indexes table before fields outcome after) (hnodup : fields.Nodup) :
    outcome = .ok () ↔ ∀ field ∈ fields, ¬ Taken before (indexName table field) := by
  induction h with
  | done before => simp
  | refused fields e h => simp [h]
  | @made before after field fields outcome h rest ih =>
    obtain ⟨hfield, hnodup⟩ := List.nodup_cons.mp hnodup
    rw [ih hnodup, List.forall_mem_cons]
    have hothers (other : String) (hmem : other ∈ fields) :
        Taken (before ++ [.index (indexName table field) table field]) (indexName table other) ↔
          Taken before (indexName table other) :=
      taken_made_iff (ne_of_mem_of_not_mem hmem hfield)
    constructor
    · intro hfree
      exact ⟨h, fun other hmem => (hothers other hmem).not.mp (hfree other hmem)⟩
    · intro ⟨_, hfree⟩ other hmem
      exact (hothers other hmem).not.mpr (hfree other hmem)

/-- A refusal leaves a field without its index, because the name of the index was taken before. -/
theorem error (h : Indexes table before fields outcome after) (hnodup : fields.Nodup) {e : Error}
    (herror : outcome = .error e) : ∃ field ∈ fields, Taken before (indexName table field) ∧
      ∀ name, .index name table field ∈ after → .index name table field ∈ before := by
  induction h with
  | done before => cases herror
  | @refused before field fields e h => exact ⟨field, List.mem_cons_self, h, fun _ hr => hr⟩
  | @made before after field fields outcome h rest ih =>
    obtain ⟨hfield, hnodup⟩ := List.nodup_cons.mp hnodup
    obtain ⟨other, hmem, htaken, hnone⟩ := ih hnodup herror
    have hne := ne_of_mem_of_not_mem hmem hfield
    refine ⟨other, List.mem_cons_of_mem _ hmem, (taken_made_iff hne).mp htaken, fun name hr => ?_⟩
    rcases List.mem_append.mp (hnone name hr) with hr | hr
    · exact hr
    · cases List.mem_singleton.mp hr
      exact absurd rfl hne

end Indexes

variable {catalog : σ → List CatalogEntry} {connection : Connection (Stateful σ)}
  (h : Catalogued catalog connection)

include h

/-- **The run of the indexes of a table** that has the columns. -/
theorem indexes_createIndexes {table : String} {fields : List String} {s : σ}
    (hcolumns : ∀ field ∈ fields, HasColumn (catalog s) table field) :
    Indexes table (catalog s) fields (Stateful.on (createIndexes connection table fields) s).1
      (catalog (Stateful.on (createIndexes connection table fields) s).2) := by
  induction fields generalizing s with
  | nil => exact .done _
  | cons field fields ih =>
    obtain ⟨hcolumn, hcolumns⟩ := List.forall_mem_cons.mp hcolumns
    by_cases htaken : Taken (catalog s) (indexName table field)
    · obtain ⟨e, he⟩ := h.taken hcolumn htaken
      rw [createIndexes, Stateful.on_bind_of_error he, h.refused he]
      exact .refused fields e htaken
    · obtain ⟨hok, hcatalog⟩ := h.indexed hcolumn htaken
      rw [createIndexes, Stateful.on_bind_of_ok hok]
      refine .made htaken (hcatalog ▸ ih fun other hmem => ?_)
      obtain ⟨columns, htable, hother⟩ := hcolumns other hmem
      exact ⟨columns, hcatalog ▸ List.mem_append_left _ htable, hother⟩

omit h

/-! ## 4. Creations -/

/-- **What becomes of a creation whose table is made,** and of the catalog. -/
structure Creates (name : String) (schema : Schema) (before : List CatalogEntry)
    (outcome : Except Error Unit) (after : List CatalogEntry) : Prop where
  free : ¬ Taken before name
  nodup : (indexedNames schema).Nodup
  indexes : ∃ own, (∀ r ∈ own, GivenByServer name r) ∧
    Indexes name (before ++ .table name (schema.map SchemaField.name) :: own) (indexedNames schema)
      outcome after

namespace Creates

variable {name : String} {schema : Schema} {before after : List CatalogEntry}
  {outcome : Except Error Unit} (hc : Creates name schema before outcome after)

include hc

theorem keeps {r : CatalogEntry} (hr : r ∈ before) : r ∈ after := by
  obtain ⟨own, -, hindexes⟩ := hc.indexes
  exact hindexes.keeps (List.mem_append_left _ hr)

/-- The table stands, whatever became of its indexes. -/
theorem table_mem : .table name (schema.map SchemaField.name) ∈ after := by
  obtain ⟨own, -, hindexes⟩ := hc.indexes
  exact hindexes.keeps (List.mem_append_right _ List.mem_cons_self)

/-- What is new is the table, the server's own index, or an index on one of the fields. -/
theorem mem {r : CatalogEntry} (hr : r ∈ after) :
    r ∈ before ∨ r = .table name (schema.map SchemaField.name) ∨ GivenByServer name r ∨
      ∃ field ∈ indexedNames schema, r = .index (indexName name field) name field := by
  obtain ⟨own, hown, hindexes⟩ := hc.indexes
  rcases hindexes.mem hr with hr | hr
  · rcases List.mem_append.mp hr with hr | hr
    · exact .inl hr
    · rcases List.mem_cons.mp hr with hr | hr
      · exact .inr (.inl hr)
      · exact .inr (.inr (.inl (hown r hr)))
  · exact .inr (.inr (.inr hr))

omit hc in
/-- Neither the table nor the server's own index takes the name of one of its indexes. -/
theorem taken_table_iff {own : List CatalogEntry} (hown : ∀ r ∈ own, GivenByServer name r)
    (field : String) :
    Taken (before ++ .table name (schema.map SchemaField.name) :: own) (indexName name field) ↔
      Taken before (indexName name field) := by
  rw [taken_append, or_iff_left]
  intro ⟨r, hr, hname⟩
  rcases List.mem_cons.mp hr with rfl | hr
  · exact ne_indexName name field hname
  · obtain ⟨given, rfl, hgiven⟩ := hown r hr
    exact hgiven (name ++ "_" ++ field) hname

/-- **A creation completes exactly when the names of its indexes are free** before it begins. -/
theorem ok_iff :
    outcome = .ok () ↔ ∀ field ∈ indexedNames schema, ¬ Taken before (indexName name field) := by
  obtain ⟨own, hown, hindexes⟩ := hc.indexes
  rw [hindexes.ok_iff hc.nodup]
  exact forall₂_congr fun field _ => (taken_table_iff hown field).not

/-- A creation that stops leaves a field without its index, because the name of the index was taken. -/
theorem error {e : Error} (herror : outcome = .error e) :
    ∃ field ∈ indexedNames schema, Taken before (indexName name field) ∧
      ∀ index, .index index name field ∈ after → .index index name field ∈ before := by
  obtain ⟨own, hown, hindexes⟩ := hc.indexes
  obtain ⟨field, hfield, htaken, hnone⟩ := hindexes.error hc.nodup herror
  refine ⟨field, hfield, (taken_table_iff hown field).mp htaken, fun index hindex => ?_⟩
  rcases List.mem_append.mp (hnone index hindex) with hr | hr
  · exact hr
  · rcases List.mem_cons.mp hr with hr | hr
    · cases hr
    · obtain ⟨given, hgiven, -⟩ := hown _ hr
      cases hgiven

end Creates

include h

/-- **The run of a creation** whose first statement is accepted. -/
theorem creates_createTable (config : Config) {name : String} {schema : Schema} {s : σ}
    (hvalid : schema.validate = .ok ())
    (haccepted : (Stateful.on (connection.exec (.createTable name (columnDefs schema))) s).1 = .ok ()) :
    ∃ outcome, (Stateful.on (createTable connection config name schema) s).1 =
        outcome.map (fun _ => ⟨connection, config, name, schema⟩) ∧
      Creates name schema (catalog s) outcome
        (catalog (Stateful.on (createTable connection config name schema) s).2) := by
  obtain ⟨hfree, hnodup, own, hcatalog, hown⟩ := h.created haccepted
  rw [columnDefs_names] at hnodup hcatalog
  have hcolumns : ∀ field ∈ indexedNames schema, HasColumn (catalog (Stateful.on
      (connection.exec (.createTable name (columnDefs schema))) s).2) name field :=
    fun field hfield => ⟨schema.map SchemaField.name, by simp [hcatalog],
      (indexedNames_sublist schema).subset hfield⟩
  have hindexes := indexes_createIndexes h hcolumns
  rw [hcatalog] at hindexes
  have hvalidated : (Stateful.on (ofOutcome schema.validate) s).1 = .ok () := by
    rw [Stateful.on_ofOutcome, hvalid]
  rw [createTable, Stateful.on_bind_of_ok hvalidated, Stateful.on_ofOutcome,
    Stateful.on_bind_of_ok haccepted, Stateful.on_bind]
  rcases hon : Stateful.on (createIndexes connection name (indexedNames schema))
    (Stateful.on (connection.exec (.createTable name (columnDefs schema))) s).2 with ⟨e | a, s'⟩ <;>
    rw [hon] at hindexes
  · exact ⟨.error e, rfl, hfree, hnodup.sublist (indexedNames_sublist schema), own, hown, hindexes⟩
  · exact ⟨.ok a, rfl, hfree, hnodup.sublist (indexedNames_sublist schema), own, hown, hindexes⟩

/-- A creation whose schema or whose first statement is refused changes nothing. -/
theorem catalog_createTable_of_refused (config : Config) {name : String} {schema : Schema} {s : σ}
    (hrefused : schema.validate = .ok () →
      (Stateful.on (connection.exec (.createTable name (columnDefs schema))) s).1 ≠ .ok ()) :
    catalog (Stateful.on (createTable connection config name schema) s).2 = catalog s := by
  rw [createTable]
  cases hvalid : schema.validate with
  | error e => rfl
  | ok u =>
    have hvalidated : (Stateful.on (ofOutcome (.ok u) : Stateful σ Unit) s).1 = .ok () := rfl
    rw [Stateful.on_bind_of_ok hvalidated, Stateful.on_ofOutcome]
    cases haccepted : (Stateful.on (connection.exec (.createTable name (columnDefs schema))) s).1 with
    | error e => rw [Stateful.on_bind_of_error haccepted, h.refused haccepted]
    | ok u => exact absurd haccepted (hrefused hvalid)

end Runs

end Sql

end QueryAlgebra
