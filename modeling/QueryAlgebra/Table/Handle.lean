import QueryAlgebra.Query.Description
import QueryAlgebra.Table.WriteResult

/-!
# Handles

A handle is a table, the rows of a table with one of several keys, or the row with one key, together
with the operations queued on it. Every backend says how its tables run and delete; what a handle
makes of that is the same for all. As an operand of another query a handle is a task that runs it.
-/

namespace QueryAlgebra

/-- The keys that a selection is limited to, on the primary key or on an index. -/
structure KeyScope (M : Type → Type) where
  /-- The index, the primary key when none is named. -/
  index : Option String
  /-- The keys. -/
  keys : List (Operand M)

/-- The part of a table that a handle stands for. -/
inductive Target (M : Type → Type) where
  /-- All rows. -/
  | table
  /-- The rows with one of several keys. -/
  | keys (scope : KeyScope M)
  /-- The row with a primary key. -/
  | row (key : Operand M)

/-- What tables of a backend do. -/
class Backend (T : Type) (M : outParam (Type → Type)) where
  /-- The name of the backend in descriptions. -/
  title : String
  /-- The name of a table. -/
  name : T → String
  /-- Runs a queue on the rows of a table, or on those with the given keys. -/
  stream : T → Scope → Option (KeyScope M) → List (Entry M) → M Value
  /-- Runs a queue on the row with a primary key. -/
  readRow : T → Scope → Operand M → List (Entry M) → M Value
  /-- Deletes the rows that a queue selects. -/
  deleteStream : T → Scope → Option (KeyScope M) → List (Entry M) → M WriteResult
  /-- Deletes the row with a primary key. -/
  deleteRow : T → Scope → Operand M → M WriteResult

/-- A part of a table with queued operations. -/
structure Handle (T : Type) (M : Type → Type) where
  /-- The table. -/
  table : T
  /-- The part of it. -/
  target : Target M
  /-- The operations queued. -/
  entries : List (Entry M)

namespace Handle

variable {T : Type} {M : Type → Type}

/-- The handle on a whole table. -/
def ofTable (t : T) : Handle T M := ⟨t, .table, []⟩

/-- The handle with more operations queued. -/
def push (h : Handle T M) (entries : List (Entry M)) : Handle T M :=
  { h with entries := h.entries ++ entries }

/-- The handle as a run leaves it. -/
def drained (h : Handle T M) : Handle T M := { h with entries := [] }

/-- The handle as a delete leaves it: the delete of a single row does not look at its queue. -/
def afterDelete (h : Handle T M) : Handle T M :=
  match h.target with
  | .row _ => h
  | _ => h.drained

variable [Backend T M]

/-- The name of the kind of handle. -/
def title (h : Handle T M) : String :=
  Backend.title T ++ (match h.target with
    | .table => "Table"
    | .keys _ => "Selection"
    | .row _ => "SingleSelection")

/-- The description of the handle. -/
def describe (h : Handle T M) : String :=
  describeRecord h.title
    [("table", Text.quoted (Backend.name h.table)),
      ("entries", describeList (describeEntries [] h.entries))]

/-- Runs the queue. -/
def run (h : Handle T M) (scope : Scope) : M Value :=
  match h.target with
  | .table => Backend.stream h.table scope none h.entries
  | .keys keys => Backend.stream h.table scope (some keys) h.entries
  | .row key => Backend.readRow h.table scope key h.entries

/-- Deletes the rows that the queue selects, or the single row. -/
def delete (h : Handle T M) (scope : Scope) : M WriteResult :=
  match h.target with
  | .table => Backend.deleteStream h.table scope none h.entries
  | .keys keys => Backend.deleteStream h.table scope (some keys) h.entries
  | .row key => Backend.deleteRow h.table scope key

/-- The handle as an operand. -/
def toOperand (h : Handle T M) : Operand M := .task (fun scope => h.run scope)

end Handle

end QueryAlgebra
