import QueryAlgebra.Sql.Statement

/-!
# Connections

What a table asks of a database: the first row of a query, all rows of a query, a statement without
rows, and the name of a table's primary key. A table is written against any connection.

A *scripted* connection answers from a script: queries take the prepared results in order, chosen
calls fail, and every call is recorded with its text.
-/

namespace QueryAlgebra

namespace Sql

/-- What a table asks of a database. -/
structure Connection (M : Type → Type) where
  /-- The first row of a query. -/
  first : Statement → M (Option Fields)
  /-- All rows of a query. -/
  all : Statement → M (List Fields)
  /-- A statement without rows. -/
  exec : Statement → M Unit
  /-- The name of a table's primary key. -/
  primaryKey : String → M String

/-! ## Scripted connections -/

/-- A kind of call. -/
inductive CallKind where
  | first
  | all
  | exec
  | primaryKey
deriving DecidableEq, Repr

/-- A recorded call: its kind, and the text of the statement or the name of the table. -/
structure Call where
  /-- The kind of call. -/
  kind : CallKind
  /-- The statement, or the table. -/
  text : String
deriving DecidableEq, Repr

/-- The state of a scripted connection. -/
structure Script where
  /-- The results that queries take, in order. -/
  results : List (List Fields) := []
  /-- Which calls fail, by their number and kind, and with what message. -/
  fault : Nat → CallKind → Option String := fun _ _ => none
  /-- The calls so far, the latest first. -/
  calls : List Call := []

/-- A computation on a scripted connection. -/
abbrev Scripted := ExceptT Error (StateM Script)

namespace Script

/-- Records a call, and fails when the script says so. -/
def record (kind : CallKind) (text : String) : Scripted Unit := do
  let s ← get
  set { s with calls := ⟨kind, text⟩ :: s.calls }
  match s.fault s.calls.length kind with
  | some message => throw (.storage message)
  | none => pure ()

/-- Takes the next result; without one there are no rows. -/
def takeResult : Scripted (List Fields) := do
  let s ← get
  match s.results with
  | [] => pure []
  | rows :: rest =>
    set { s with results := rest }
    pure rows

/-- The connection that answers from the script, in a dialect and with a name for primary keys. -/
def connection (d : Dialect) (primaryKey : String) : Connection Scripted where
  first s := do
    record .first (s.render d)
    return (← takeResult).head?
  all s := do
    record .all (s.render d)
    takeResult
  exec s := record .exec (s.render d)
  primaryKey table := do
    record .primaryKey table
    return primaryKey

end Script

end Sql

end QueryAlgebra
