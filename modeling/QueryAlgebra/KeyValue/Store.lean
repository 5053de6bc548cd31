import QueryAlgebra.KeyValue.OrderedMap
import QueryAlgebra.Error

/-!
# Stores

What a table asks of a store: point reads, batches that are written as a whole, and ordered scans. A
table is written against any store.

A *session* is a store in memory that can be made to fail: chosen calls fail and change nothing,
every batch that is written is recorded, and fresh identifiers come from a given supply.
-/

namespace QueryAlgebra

namespace KeyValue

/-- One write of a batch. -/
inductive Write where
  /-- Sets a key to a value. -/
  | put (key value : String)
  /-- Removes a key. -/
  | del (key : String)
deriving DecidableEq, Repr

/-- What a table asks of a store. -/
structure Store (M : Type → Type) where
  /-- Reads a key. -/
  get : String → M (Option String)
  /-- Writes a key. -/
  put : String → String → M Unit
  /-- Removes a key. -/
  del : String → M Unit
  /-- Applies writes in order, all or none. -/
  batch : List Write → M Unit
  /-- The entries whose keys begin with a text, in the order of keys. -/
  scan : String → M (List (String × String))
  /-- An identifier that was not used before, with high probability. -/
  freshId : M String

/-! ## 1. Memory -/

/-- The content of a store: keys in the order of their characters. -/
abbrev Content := OrderedMap Char String

namespace Content

/-- The value under a key. -/
def read (m : Content) (key : String) : Option String := OrderedMap.get? m key.toList

/-- Applies one write. -/
def apply (m : Content) : Write → Content
  | .put key v => OrderedMap.put m key.toList v
  | .del key => OrderedMap.del m key.toList

/-- Applies writes in order. -/
def applyAll (m : Content) (writes : List Write) : Content := writes.foldl apply m

/-- The entries whose keys begin with a text, in the order of keys. -/
def startingWith (m : Content) (start : String) : List (String × String) :=
  (OrderedMap.under m start.toList).map (fun e => (String.ofList e.1, e.2))

/-- All entries, in the order of keys. -/
def toPairs (m : Content) : List (String × String) := m.map (fun e => (String.ofList e.1, e.2))

end Content

/-! ## 2. Sessions -/

/-- A kind of call. -/
inductive StoreCall where
  | get
  | put
  | del
  | batch
  | scan
deriving DecidableEq, Repr

/-- The state of a session. -/
structure Memory where
  /-- What is stored. -/
  content : Content := []
  /-- Which calls fail, by their kind and the number of such calls before, and with what message. -/
  fault : StoreCall → Nat → Option String := fun _ _ => none
  /-- The calls so far. -/
  calls : List StoreCall := []
  /-- The batches written so far, the latest first. -/
  batches : List (List Write) := []
  /-- The supply of identifiers. -/
  ids : Nat → String := fun _ => ""
  /-- How many identifiers have been taken. -/
  idsTaken : Nat := 0

/-- A computation in a session. -/
abbrev Session := ExceptT Error (StateM Memory)

namespace Memory

/-- Counts a call, and fails when it is to fail. -/
def charge (call : StoreCall) : Session Unit := do
  let s ← get
  set { s with calls := call :: s.calls }
  match s.fault call (s.calls.count call) with
  | some message => throw (.storage message)
  | none => pure ()

/-- Reads a key. -/
def getKey (key : String) : Session (Option String) := do
  charge .get
  return (← get).content.read key

/-- Changes the content. -/
def modifyContent (f : Content → Content) : Session Unit :=
  modify (fun s => { s with content := f s.content })

/-- Applies writes in order, and records them. -/
def writeBatch (writes : List Write) : Session Unit := do
  charge .batch
  modify (fun s =>
    { s with content := s.content.applyAll writes, batches := writes :: s.batches })

/-- The next identifier of the supply. -/
def nextId : Session String := do
  let s ← get
  set { s with idsTaken := s.idsTaken + 1 }
  pure (s.ids s.idsTaken)

/-- The store of a session. -/
def store : Store Session where
  get := getKey
  put key v := do
    charge .put
    modifyContent (·.apply (.put key v))
  del key := do
    charge .del
    modifyContent (·.apply (.del key))
  batch := writeBatch
  scan start := do
    charge .scan
    return (← get).content.startingWith start
  freshId := nextId

end Memory

end KeyValue

end QueryAlgebra
