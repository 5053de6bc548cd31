import QueryAlgebra.KeyValue.Table

/-!
# The tables of a key-value database

A record lists the tables in the order of their creation. A table is created with its index list and
the new table list in one batch, and dropped with everything stored for it in one batch.
-/

namespace QueryAlgebra

namespace KeyValue

/-- A database: a store and the settings. -/
structure Database (M : Type → Type) where
  /-- The store. -/
  store : Store M
  /-- The settings. -/
  config : Config

namespace Database

variable {M : Type → Type} [Monad M] [MonadExceptOf Error M]

/-- The table of a name with a schema, whether it has been created or not. -/
def table (db : Database M) (name : String) (schema : Schema) : Table M :=
  ⟨db.store, db.config, name, schema⟩

/-- The place of the table list. -/
def tablesKey : String := Space.database.named tableListName

/-- The names of all tables, in the order of their creation. -/
def tables (db : Database M) : M (List String) := do
  match ← db.store.get tablesKey with
  | none => return []
  | some text => ofOutcome (readNames text)

/-- The write that stores the table list. -/
def tablesRecord (names : List String) : Write := .put tablesKey (namesRecord names)

/-- The names of the fields that a schema marks as indexed. -/
def indexedNames (schema : Schema) : List String :=
  (schema.filter SchemaField.index).map SchemaField.name

/-- Checks a table to create: its schema, its name, and the names of its indexes. -/
def checkTable (name : String) (schema : Schema) : Except Error Unit := do
  schema.validate
  checkName "table" name
  (indexedNames schema).forM (checkName "index")

/-- Creates a table. The primary key is the first indexed field, else the first; every other indexed
    field has an index. -/
def create (db : Database M) (name : String) (schema : Schema) : M (Table M) := do
  ofOutcome (checkTable name schema)
  let primaryKey := (schema.primary?.map SchemaField.name).getD ""
  let tables ← db.tables
  if tables.contains name then
    throw (Error.argument ("table `" ++ name ++ "` already exists"))
  let indexes := IndexList.ofFields primaryKey (indexedNames schema)
  db.store.batch [indexes.record name, tablesRecord (tables ++ [name])]
  return db.table name schema

/-- Drops a table and everything stored for it, if it exists. -/
def drop (db : Database M) (name : String) : M Unit := do
  let tables ← db.tables
  if tables.contains name then
    let entries ← db.store.scan (Space.table name).stem
    db.store.batch (entries.map (fun e => Write.del e.1)
      ++ [tablesRecord (tables.filter (· ≠ name))])

end Database

end KeyValue

end QueryAlgebra
