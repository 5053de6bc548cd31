import QueryAlgebra.Json.Reader
import QueryAlgebra.KeyValue.Space
import QueryAlgebra.KeyValue.Store
import QueryAlgebra.Query.Evaluate

/-!
# Indexes

A record names the indexed fields of a table; the first of them is the primary key and has no index
of its own. Every other index maps an indexed value to the list of the primary keys that hold it.

Every write of a single row goes through `commit`: it works out what changes in each index between
the old document and the new one, and writes this and the document in one batch.
-/

namespace QueryAlgebra

namespace KeyValue

/-! ## 1. Records -/

/-- The error for a record that cannot be read. -/
def malformedRecord : Error := .serialization "malformed record"

/-- The value of a record. -/
def readRecord (text : String) : Except Error Value :=
  match Json.read text with
  | some v => .ok v
  | none => .error malformedRecord

/-- The document of a record. -/
def readDocument (text : String) : Except Error Fields := do
  match ← readRecord text with
  | .object fields => .ok fields
  | _ => .error malformedRecord

/-- The values of a record that lists values. -/
def readValues (text : String) : Except Error (List Value) := do
  match ← readRecord text with
  | .array items => .ok items
  | _ => .error malformedRecord

/-- The name that a value is. -/
def asName : Value → Except Error String
  | .string s => .ok s
  | _ => .error malformedRecord

/-- The names of a record that lists names. -/
def readNames (text : String) : Except Error (List String) := do
  (← readValues text).mapM asName

/-- A list of names as a record. -/
def namesRecord (names : List String) : String := (Value.array (names.map .string)).json

/-! ## 2. Index lists -/

/-- The indexed fields of a table. -/
structure IndexList where
  /-- The primary key. -/
  primaryKey : String
  /-- The fields with an index. -/
  secondary : List String
deriving DecidableEq, Repr, Inhabited

namespace IndexList

/-- The list for a primary key and further fields; the primary key among them has no index. -/
def ofFields (primaryKey : String) (fields : List String) : IndexList :=
  ⟨primaryKey, fields.filter (· ≠ primaryKey)⟩

/-- Whether a field has an index. -/
def has (l : IndexList) (field : String) : Bool := l.secondary.contains field

/-- The list with one more field. -/
def add (l : IndexList) (field : String) : IndexList :=
  { l with secondary := l.secondary ++ [field] }

/-- The list without a field; the primary key stays. -/
def remove (l : IndexList) (field : String) : IndexList :=
  { l with secondary := l.secondary.filter (fun f => f ≠ field ∨ f = l.primaryKey) }

/-- The write that stores the list of a table. -/
def record (l : IndexList) (table : String) : Write :=
  .put ((Space.records table).named indexListName) (namesRecord (l.primaryKey :: l.secondary))

/-- The list that a record gives. -/
def ofRecord (table text : String) : Except Error IndexList := do
  match ← readNames text with
  | [] => .error (.serialization ("empty index list for table `" ++ table ++ "`"))
  | primaryKey :: secondary => .ok ⟨primaryKey, secondary⟩

end IndexList

variable {M : Type → Type} [Monad M] [MonadExceptOf Error M]

/-- The index list of a table, which must have been created. -/
def loadIndexes (store : Store M) (table : String) : M IndexList := do
  match ← store.get ((Space.records table).named indexListName) with
  | none => throw (Error.storage ("table `" ++ table ++ "` does not exist"))
  | some text => ofOutcome (IndexList.ofRecord table text)

/-! ## 3. Entries of an index -/

/-- The primary keys under an indexed value. -/
def lookup (store : Store M) (table field : String) (v : Value) : M (List Value) := do
  match ← store.get ((Space.index table field).key v) with
  | none => return []
  | some text => ofOutcome (readValues text)

/-- The value of a document in an index on a field; a null field is not indexed. -/
def indexed (doc : Option Fields) (field : String) : Option Value :=
  (doc.bind (fun d => d.get? field)).filter (fun v => !v.isNull)

/-- The write of the list of keys under an indexed value. An empty list is not kept. -/
def listWrite (key : String) (keys : List Value) : Write :=
  if keys.isEmpty then .del key else .put key (Value.array keys).json

/-- A list of keys without one. -/
def withoutKey (keys : List Value) (key : Value) : List Value :=
  keys.filter (fun k => !k.looseEq key)

/-- A list of keys with one more, unless it is there. -/
def withKey (keys : List Value) (key : Value) : List Value :=
  if keys.any (fun k => k.looseEq key) then keys else keys ++ [key]

/-- The write that changes the list of keys under an indexed value, when there is one. -/
def entryChange (store : Store M) (table field : String) (change : List Value → List Value) :
    Option Value → M (List Write)
  | none => pure []
  | some v => do
    let keys ← lookup store table field v
    return [listWrite ((Space.index table field).key v) (change keys)]

/-- The writes that bring one index from the old document to the new one: the key is taken from under
    the value that it had, and put under the value that it has. -/
def fieldWrites (store : Store M) (table : String) (key : Value) (old new : Option Fields)
    (field : String) : M (List Write) := do
  let before := indexed old field
  let after := indexed new field
  if before.map Value.fingerprint = after.map Value.fingerprint then return []
  let leave ← entryChange store table field (withoutKey · key) before
  let enter ← entryChange store table field (withKey · key) after
  return leave ++ enter

/-- The writes that bring several indexes from the old document to the new one. -/
def indexWrites (store : Store M) (table : String) (key : Value) (old new : Option Fields) :
    List String → M (List Write)
  | [] => pure []
  | field :: rest => do
    let writes ← fieldWrites store table key old new field
    return writes ++ (← indexWrites store table key old new rest)

/-- The write of a document, or of its removal. -/
def documentWrite (table : String) (key : Value) : Option Fields → Write
  | some doc => .put ((Space.primary table).key key) (Value.object doc).json
  | none => .del ((Space.primary table).key key)

/-- Writes a document over another and keeps every index in step, in one batch. -/
def commit (store : Store M) (table : String) (indexes : IndexList) (key : Value)
    (old new : Option Fields) : M Unit := do
  let writes ← indexWrites store table key old new indexes.secondary
  store.batch (writes ++ [documentWrite table key new])

/-! ## 4. Rebuilding -/

/-- The lists of keys by their places, with one more key at a place. -/
def addToList (lists : OrderedMap Char (List Value)) (place : String) (key : Value) :
    OrderedMap Char (List Value) :=
  OrderedMap.put lists place.toList ((OrderedMap.get? lists place.toList).getD [] ++ [key])

/-- The lists of keys by their places, with one more document. A document without the field, or
    without a primary key, adds nothing. -/
def addDocument (table field primaryKey : String) (lists : OrderedMap Char (List Value))
    (doc : Fields) : OrderedMap Char (List Value) :=
  match indexed (some doc) field, doc.get? primaryKey with
  | some v, some key => addToList lists ((Space.index table field).key v) key
  | _, _ => lists

/-- The writes that build an index from the documents of a table, in the order of their keys. -/
def rebuild (store : Store M) (table field primaryKey : String) : M (List Write) := do
  let entries ← store.scan (Space.primary table).stem
  let docs ← ofOutcome (entries.mapM (fun e => readDocument e.2))
  let lists := docs.foldl (addDocument table field primaryKey) []
  return lists.map (fun e => listWrite (String.ofList e.1) e.2)

end KeyValue

end QueryAlgebra
