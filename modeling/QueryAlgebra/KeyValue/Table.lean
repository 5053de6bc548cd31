import QueryAlgebra.Config.Basic
import QueryAlgebra.KeyValue.Index
import QueryAlgebra.KeyValue.Pipeline
import QueryAlgebra.Schema
import QueryAlgebra.Table.Handle

/-!
# Tables of a key-value store

Reading and writing the documents of a table: all of them, those with one of several keys, or the
one with a key. Reads scan the documents, or fetch those that the keys name, and send them through
the pipeline of the queue. Writes go through `commit`, so that a document and the indexes change in
one batch.
-/

namespace QueryAlgebra

namespace KeyValue

/-- A table of a database. -/
structure Table (M : Type → Type) where
  /-- The store. -/
  store : Store M
  /-- The settings. -/
  config : Config
  /-- The name of the table. -/
  name : String
  /-- The declared fields. -/
  schema : Schema

variable {M : Type → Type} [Monad M] [MonadExceptOf Error M]

namespace Table

/-! ## 1. Reading -/

/-- The index list of the table. -/
def indexes (t : Table M) : M IndexList := loadIndexes t.store t.name

/-- The document with a primary key. -/
def fetch (t : Table M) (key : Value) : M (Option Fields) := do
  match ← t.store.get ((Space.primary t.name).key key) with
  | none => return none
  | some text => return some (← ofOutcome (readDocument text))

/-- All documents, in the order of their keys. -/
def scan (t : Table M) : M (List Value) := do
  let entries ← t.store.scan (Space.primary t.name).stem
  ofOutcome (entries.mapM (fun e => readRecord e.2))

/-- The primary keys under several values of an index. -/
def lookupAll (t : Table M) (field : String) : List Value → M (List Value)
  | [] => pure []
  | v :: rest => do
    let keys ← lookup t.store t.name field v
    return keys ++ (← t.lookupAll field rest)

/-- The primary keys that the keys of a selection name, on an index or on the primary key. -/
def primaryKeys (t : Table M) (indexes : IndexList) (index : Option String) (keys : List Value) :
    M (List Value) :=
  match index with
  | none => pure keys
  | some field =>
    if field = indexes.primaryKey then pure keys
    else if indexes.has field then t.lookupAll field keys
    else throw (Error.argument ("table `" ++ t.name ++ "` has no index on `" ++ field ++ "`"))

/-- The documents with the given primary keys, each once; a key without a document is passed
    over. -/
def fetchAll (t : Table M) : List Value → M (List Value)
  | [] => pure []
  | key :: rest => do
    let doc ← t.fetch key
    return (doc.map Value.object).toList ++ (← t.fetchAll rest)

/-- The documents that the keys of a selection name. -/
def selected (t : Table M) (scope : Scope) (keys : KeyScope M) : M (List Value) := do
  let values ← resolveAll scope keys.keys
  let indexes ← t.indexes
  let primaryKeys ← t.primaryKeys indexes keys.index values
  t.fetchAll (Value.distinctFrom [] primaryKeys)

/-- The documents of the table, or those with the given keys. -/
def documents (t : Table M) (scope : Scope) : Option (KeyScope M) → M (List Value)
  | none => t.scan
  | some keys => t.selected scope keys

/-- Runs a queue on the documents of the table, or on those with the given keys. -/
def stream (t : Table M) (scope : Scope) (keys : Option (KeyScope M)) (entries : List (Entry M)) :
    M Value := do
  let pipeline ← Pipeline.ofEntries scope entries
  pipeline.run scope (← t.documents scope keys)

/-- Runs a queue on the document with a primary key, null when there is none. -/
def readRow (t : Table M) (scope : Scope) (key : Operand M) (entries : List (Entry M)) :
    M Value := do
  let key ← key.resolve scope
  let doc ← t.fetch key
  evaluate scope ((doc.map Value.object).getD .null) entries

/-! ## 2. Deleting -/

/-- Deletes the document with a primary key. -/
def deleteKey (t : Table M) (indexes : IndexList) (key : Value) : M WriteResult := do
  match ← t.fetch key with
  | none => return { skipped := 1 }
  | some old =>
    commit t.store t.name indexes key (some old) none
    return { deleted := 1 }

/-- Deletes the documents with the primary keys of items, one after another. An item without one is
    passed over. -/
def deleteItems (t : Table M) (indexes : IndexList) (total : WriteResult) :
    List Value → M WriteResult
  | [] => pure total
  | item :: rest => do
    match item with
    | .object fields =>
      match (Fields.get? fields indexes.primaryKey).filter (fun k => !k.isNull) with
      | some key =>
        let result ← WriteResult.report (t.deleteKey indexes key)
        t.deleteItems indexes (total.merge result) rest
      | none => t.deleteItems indexes total rest
    | _ => t.deleteItems indexes total rest

/-- Deletes the documents that a queue selects. -/
def deleteStream (t : Table M) (scope : Scope) (keys : Option (KeyScope M))
    (entries : List (Entry M)) : M WriteResult := do
  let pipeline ← Pipeline.ofEntries scope entries
  WriteResult.report do
    let indexes ← t.indexes
    let docs ← t.documents scope keys
    match ← pipeline.run scope docs with
    | .array items => t.deleteItems indexes {} items
    | _ => throw (Error.unsupported "delete" "the selection no longer yields rows")

/-- The key of a document and the index list. -/
def rowTarget (t : Table M) (scope : Scope) (key : Operand M) : M (IndexList × Value) := do
  let key ← key.resolve scope
  let indexes ← t.indexes
  return (indexes, key)

/-- Deletes a document. -/
def deleteRow (t : Table M) (scope : Scope) (key : Operand M) : M WriteResult :=
  WriteResult.report do
    let (indexes, key) ← t.rowTarget scope key
    t.deleteKey indexes key

/-! ## 3. Inserting -/

/-- A random primary key that no document has, found in so many attempts. -/
def freshKey (t : Table M) : Nat → M Value
  | 0 => throw (Error.storage
      ("no free primary key after " ++ toString t.config.idAttempts ++ " attempts"))
  | attempts + 1 => do
    let key := Value.string (← t.store.freshId)
    match ← t.fetch key with
    | none => return key
    | some _ => t.freshKey attempts

/-- The key of a document to insert, and the document with it. A document without a key gets a
    random one. -/
def keyOf (t : Table M) (primaryKey : String) (doc : Fields) : M (Value × Fields) :=
  match (doc.get? primaryKey).filter (fun k => !k.isNull) with
  | some key => pure (key, doc)
  | none => do
    let key ← t.freshKey t.config.idAttempts
    return (key, doc.keyed primaryKey key)

/-- What a document becomes when another is inserted over it. -/
def overwritten (key : Value) (old doc : Fields) : Conflict → Except Error Fields
  | .error => .error (.storage ("duplicate primary key " ++ key.json))
  | .replace => .ok doc
  | .update => .ok (old.merge doc)

/-- Writes a document over another, unless they hold the same data. -/
def writeOver (t : Table M) (indexes : IndexList) (key : Value) (old new : Fields) :
    M WriteResult := do
  if (Value.object old).sameDocument (.object new) then return { unchanged := 1 }
  commit t.store t.name indexes key (some old) (some new)
  return { replaced := 1 }

/-- Inserts one document. -/
def insertOne (t : Table M) (indexes : IndexList) (conflict : Conflict) (doc : Fields) :
    M WriteResult := do
  let (key, doc) ← t.keyOf indexes.primaryKey doc
  match ← t.fetch key with
  | none =>
    commit t.store t.name indexes key none (some doc)
    return { inserted := 1 }
  | some old => do
    let new ← ofOutcome (overwritten key old doc conflict)
    t.writeOver indexes key old new

/-- Inserts an object or an array of objects. -/
def insert (t : Table M) (docs : Value) (choice : Option Conflict) : M WriteResult :=
  WriteResult.insertAfter t.indexes
    (fun indexes => t.insertOne indexes (t.config.conflictFor choice)) docs

/-! ## 4. Changing a document -/

/-- Sets fields of a document. -/
def update (t : Table M) (scope : Scope) (key : Operand M) (patch : Value) : M WriteResult := do
  let patch ← ofOutcome (patch.singleDocument "update")
  if patch.isErasure then t.deleteRow scope key
  else WriteResult.report do
    let (indexes, key) ← t.rowTarget scope key
    ofOutcome (patch.checkKey indexes.primaryKey key)
    match ← t.fetch key with
    | none => return { skipped := 1 }
    | some old => t.writeOver indexes key old (old.merge patch)

/-- Overwrites a document. -/
def replace (t : Table M) (scope : Scope) (key : Operand M) (doc : Value) : M WriteResult := do
  let doc ← ofOutcome (doc.singleDocument "replace")
  if doc.isErasure then t.deleteRow scope key
  else WriteResult.report do
    let (indexes, key) ← t.rowTarget scope key
    ofOutcome (doc.checkKey indexes.primaryKey key)
    let new := doc.keyed indexes.primaryKey key
    match ← t.fetch key with
    | none =>
      commit t.store t.name indexes key none (some new)
      return { inserted := 1 }
    | some old => t.writeOver indexes key old new

/-! ## 5. Indexes -/

/-- Creates an index on a field from the stored documents. -/
def createIndex (t : Table M) (field : String) : M Unit := do
  ofOutcome (checkName "index" field)
  let indexes ← t.indexes
  if field = indexes.primaryKey || indexes.has field then
    throw (Error.argument ("index `" ++ field ++ "` already exists on table `" ++ t.name ++ "`"))
  let writes ← rebuild t.store t.name field indexes.primaryKey
  t.store.batch (writes ++ [(indexes.add field).record t.name])

/-- Drops the index on a field. -/
def dropIndex (t : Table M) (field : String) : M Unit := do
  let indexes ← t.indexes
  if !indexes.has field then
    throw (Error.argument ("table `" ++ t.name ++ "` has no index on `" ++ field ++ "`"))
  let entries ← t.store.scan (Space.index t.name field).stem
  t.store.batch (entries.map (fun e => Write.del e.1) ++ [(indexes.remove field).record t.name])

/-- The fields with an index. -/
def indexNames (t : Table M) : M (List String) := do return (← t.indexes).secondary

end Table

instance : Backend (Table M) M where
  title := "Kv"
  name t := t.name
  stream t := t.stream
  readRow t := t.readRow
  deleteStream t := t.deleteStream
  deleteRow t := t.deleteRow

end KeyValue

end QueryAlgebra
