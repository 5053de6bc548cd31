import QueryAlgebra.Config.Basic
import QueryAlgebra.Sql.Connection
import QueryAlgebra.Sql.Stream
import QueryAlgebra.Table.Handle

/-!
# SQL tables

Reading and writing the rows of a table: the whole table, the rows with one of several keys, or the
row with one key. Reads pass storage errors on. Writes check their arguments before any statement is
issued, and report storage errors in their result.
-/

namespace QueryAlgebra

namespace Sql

/-- A table of a database. -/
structure Table (M : Type → Type) where
  /-- The database. -/
  connection : Connection M
  /-- The settings. -/
  config : Config
  /-- The name of the table. -/
  name : String
  /-- The declared fields. -/
  schema : Schema

variable {M : Type → Type} [Monad M] [MonadExceptOf Error M]

namespace Table

/-! ## 1. Reading -/

/-- The row with a primary key, decoded. -/
def fetchRow (t : Table M) (primaryKey : String) (key : Value) : M (Option Value) := do
  match ← t.connection.first (.select false none t.name [.equals primaryKey key] none) with
  | none => return none
  | some row => return some (← ofOutcome (t.schema.decodeRow row))

/-- The rows of a query, decoded. -/
def fetch (t : Table M) (plan : StreamPlan M) (primaryKey : String) (scope : Option RowTest) :
    M (List Value) := do
  let rows ← t.connection.all (plan.select t.name primaryKey scope)
  ofOutcome (rows.mapM t.schema.decodeRow)

/-- Where a plan is to run: the primary key, and the test of the keys. None when the result is empty
    whatever the table holds. -/
def target (t : Table M) (scope : Scope) (keys : Option (KeyScope M)) (plan : StreamPlan M) :
    M (Option (String × Option RowTest)) := do
  if plan.kill then return none
  let primaryKey ← t.connection.primaryKey t.name
  match keys with
  | none => return some (primaryKey, none)
  | some keys =>
    let values ← resolveAll scope keys.keys
    match inList (keys.index.getD primaryKey) values with
    | none => return none
    | some test => return some (primaryKey, some test)

/-- Runs a queue on the rows of the table, or on those with the given keys. -/
def stream (t : Table M) (scope : Scope) (keys : Option (KeyScope M)) (entries : List (Entry M)) :
    M Value := do
  let plan ← planStream scope entries
  match ← t.target scope keys plan with
  | none => plan.finish scope []
  | some (primaryKey, test) => plan.finish scope (← t.fetch plan primaryKey test)

/-- Runs a queue on the row with a primary key, null when there is none. -/
def readRow (t : Table M) (scope : Scope) (key : Operand M) (entries : List (Entry M)) :
    M Value := do
  let key ← key.resolve scope
  let primaryKey ← t.connection.primaryKey t.name
  let row ← t.fetchRow primaryKey key
  evaluate scope (row.getD .null) entries

/-! ## 2. Deleting -/

/-- The primary keys in the answer of a queue, which must still be an array. -/
def keysOfAnswer (primaryKey : String) : Value → Except Error (List Value)
  | .array items => .ok (keyValues (items.filterMap (fun item =>
      match item with
      | .object fields => some fields
      | _ => none)) primaryKey)
  | _ => .error (.unsupported "delete" "the selection no longer yields rows")

/-- Deletes the rows with the given primary keys, in one statement. -/
def deleteKeys (t : Table M) (primaryKey : String) (keys : List Value) : M WriteResult :=
  match inList primaryKey keys with
  | none => pure {}
  | some test => do
    t.connection.exec (.delete t.name test)
    return { deleted := keys.length }

/-- Deletes the rows that a queue selects. -/
def deleteStream (t : Table M) (scope : Scope) (keys : Option (KeyScope M))
    (entries : List (Entry M)) : M WriteResult := do
  let plan ← planStream scope entries
  match ← t.target scope keys plan with
  | none => return {}
  | some (primaryKey, test) => WriteResult.report do
    let keys ←
      if plan.rest.isEmpty then do
        let rows ← t.connection.all (plan.selectKeys t.name primaryKey test)
        pure (keyValues rows primaryKey)
      else do
        let rows ← t.fetch plan primaryKey test
        ofOutcome (keysOfAnswer primaryKey (← plan.finish scope rows))
    t.deleteKeys primaryKey keys

/-- The key of a row and the name of the primary key. -/
def rowTarget (t : Table M) (scope : Scope) (key : Operand M) : M (String × Value) := do
  let key ← key.resolve scope
  let primaryKey ← t.connection.primaryKey t.name
  return (primaryKey, key)

/-- Deletes the row of a key. -/
def deleteAt (t : Table M) (primaryKey : String) (key : Value) : M WriteResult := do
  match ← t.fetchRow primaryKey key with
  | none => return { skipped := 1 }
  | some _ =>
    t.connection.exec (.delete t.name (.equals primaryKey key))
    return { deleted := 1 }

/-- Deletes a row. -/
def deleteRow (t : Table M) (scope : Scope) (key : Operand M) : M WriteResult :=
  WriteResult.report do
    let (primaryKey, key) ← t.rowTarget scope key
    t.deleteAt primaryKey key

/-! ## 3. Inserting -/

/-- The statement that inserts a document. -/
def insertStatement (t : Table M) (primaryKey : String) (doc : Fields) : Conflict → Statement
  | .error => .insert t.name doc
  | .replace => .replace t.name primaryKey doc (t.schema.map SchemaField.name)
  | .update => .upsert t.name primaryKey doc

/-- The stored row that a document would meet, when the insert looks for one. -/
def storedRow (t : Table M) (primaryKey : String) (doc : Fields) (conflict : Conflict) :
    M (Option Value) :=
  match doc.get? primaryKey, conflict with
  | some _, .error => pure none
  | some key, _ => t.fetchRow primaryKey key
  | none, _ => pure none

/-- What a row becomes when a document is inserted over it. -/
def overwritten (old : Value) (doc : Fields) : Conflict → Value
  | .update =>
    match old with
    | .object stored => .object (Fields.merge stored doc)
    | _ => .object doc
  | _ => .object doc

/-- Inserts one document. -/
def insertOne (t : Table M) (primaryKey : String) (conflict : Conflict) (doc : Fields) :
    M WriteResult := do
  match ← t.storedRow primaryKey doc conflict with
  | none =>
    t.connection.exec (t.insertStatement primaryKey doc conflict)
    return { inserted := 1 }
  | some old =>
    if old.sameDocument (overwritten old doc conflict) then return { unchanged := 1 }
    t.connection.exec (t.insertStatement primaryKey doc conflict)
    return { replaced := 1 }

/-- Inserts an object or an array of objects. -/
def insert (t : Table M) (docs : Value) (choice : Option Conflict) : M WriteResult :=
  WriteResult.insertAfter (t.connection.primaryKey t.name)
    (fun primaryKey => t.insertOne primaryKey (t.config.conflictFor choice)) docs

/-! ## 4. Changing a row -/

/-- Sets fields of the row of a key. -/
def updateAt (t : Table M) (patch : Fields) (primaryKey : String) (key : Value) : M WriteResult := do
  ofOutcome (patch.checkKey primaryKey key)
  match ← t.fetchRow primaryKey key with
  | none => return { skipped := 1 }
  | some old =>
    let stored := match old with
      | .object fields => fields
      | _ => []
    if old.sameDocument (.object (Fields.merge stored patch)) then return { unchanged := 1 }
    t.connection.exec (.update t.name patch (.equals primaryKey key))
    return { replaced := 1 }

/-- Sets fields of a row. -/
def update (t : Table M) (scope : Scope) (key : Operand M) (patch : Value) : M WriteResult := do
  let patch ← ofOutcome (patch.singleDocument "update")
  if patch.isErasure then t.deleteRow scope key
  else WriteResult.report do
    let (primaryKey, key) ← t.rowTarget scope key
    t.updateAt patch primaryKey key

/-- The statement that puts a document in the place of a row. -/
def replacement (t : Table M) (doc : Fields) (primaryKey : String) (key : Value) : Statement :=
  .replace t.name primaryKey (doc.keyed primaryKey key) (t.schema.map SchemaField.name)

/-- Overwrites the row of a key. -/
def replaceAt (t : Table M) (doc : Fields) (primaryKey : String) (key : Value) : M WriteResult := do
  ofOutcome (doc.checkKey primaryKey key)
  match ← t.fetchRow primaryKey key with
  | none =>
    t.connection.exec (t.replacement doc primaryKey key)
    return { inserted := 1 }
  | some old =>
    if old.sameDocument (.object (doc.keyed primaryKey key)) then return { unchanged := 1 }
    t.connection.exec (t.replacement doc primaryKey key)
    return { replaced := 1 }

/-- Overwrites a row. -/
def replace (t : Table M) (scope : Scope) (key : Operand M) (doc : Value) : M WriteResult := do
  let doc ← ofOutcome (doc.singleDocument "replace")
  if doc.isErasure then t.deleteRow scope key
  else WriteResult.report do
    let (primaryKey, key) ← t.rowTarget scope key
    t.replaceAt doc primaryKey key

end Table

instance : Backend (Table M) M where
  title := "Sql"
  name t := t.name
  stream t := t.stream
  readRow t := t.readRow
  deleteStream t := t.deleteStream
  deleteRow t := t.deleteRow

/-! ## 5. Tables of a database -/

/-- The name of the index on a field of a table. -/
def indexName (table field : String) : String := table ++ "_" ++ field ++ "_idx"

/-- The name of the primary key of a table: of the first indexed field, else of the first. -/
def primaryName (schema : Schema) : String := (schema.primary?.map SchemaField.name).getD ""

/-- The columns of a table. -/
def columnDefs (schema : Schema) : List ColumnDef :=
  schema.map (fun f => ⟨f.name, f.type, f.name = primaryName schema⟩)

/-- The fields that have an index of their own. -/
def indexedNames (schema : Schema) : List String :=
  (schema.filter (fun f => f.index && f.name ≠ primaryName schema)).map SchemaField.name

/-- Creates the indexes on fields of a table. -/
def createIndexes (connection : Connection M) (table : String) : List String → M Unit
  | [] => pure ()
  | field :: fields => do
    connection.exec (.createIndex (indexName table field) table field)
    createIndexes connection table fields

/-- Creates a table by one statement for its columns, and one for each index. -/
def createTable (connection : Connection M) (config : Config) (name : String) (schema : Schema) :
    M (Table M) := do
  ofOutcome schema.validate
  connection.exec (.createTable name (columnDefs schema))
  createIndexes connection name (indexedNames schema)
  return ⟨connection, config, name, schema⟩

/-- Drops a table. -/
def dropTable (connection : Connection M) (name : String) : M Unit :=
  connection.exec (.dropTable name)

/-- The names of all tables. -/
def tableNames (connection : Connection M) : M (List String) := do
  let rows ← connection.all .listTables
  return rows.filterMap (fun row =>
    match row.get? "name" with
    | some (.string name) => some name
    | _ => none)

end Sql

end QueryAlgebra
