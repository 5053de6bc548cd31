import QueryAlgebra.Sql.Filter
import QueryAlgebra.Sql.Statement

/-!
# Streams as SQL queries

The operations at the beginning of a queue on a table that one `SELECT` can run in the order of the
queue: filters, one `distinct`, one `pluck`, limits. The first operation that cannot be among them,
and all after it, are left to run on the rows that the query answers.

A filter tests whole rows in a subquery, so it may only come before a projection and before a limit.
A filter that is false for every row makes the result empty without a query.
-/

namespace QueryAlgebra

namespace Sql

/-- A queue split into a query and the operations left. -/
structure StreamPlan (M : Type → Type) where
  /-- The formulas that a row must pass, in order. -/
  filters : List Formula := []
  /-- Whether repeated rows are dropped. -/
  distinct : Bool := false
  /-- The columns kept, all when none are named. -/
  columns : Option (List String) := none
  /-- How many rows are kept. -/
  limit : Option Nat := none
  /-- Whether the result is empty whatever the table holds. -/
  kill : Bool := false
  /-- The operations left. -/
  rest : List (Entry M) := []

variable {M : Type → Type}

namespace StreamPlan

/-- The tests of the query within a scope. -/
def tests (plan : StreamPlan M) (table primaryKey : String) (scope : Option RowTest) :
    List RowTest :=
  scope.toList ++ (match plan.filters with
    | [] => []
    | first :: others => [.passes table primaryKey first others])

/-- The query for the rows. -/
def select (plan : StreamPlan M) (table primaryKey : String) (scope : Option RowTest) : Statement :=
  .select plan.distinct plan.columns table (plan.tests table primaryKey scope) plan.limit

/-- The query for the primary keys of the rows. -/
def selectKeys (plan : StreamPlan M) (table primaryKey : String) (scope : Option RowTest) :
    Statement :=
  .select false (some [primaryKey]) table (plan.tests table primaryKey scope) plan.limit

/-- Leaves operations to the rows. -/
def leave (plan : StreamPlan M) (rest : List (Entry M)) : StreamPlan M := { plan with rest }

variable [Monad M] [MonadExceptOf Error M]

/-- Runs the operations left on the rows that the query answered. -/
def finish (plan : StreamPlan M) (scope : Scope) (rows : List Value) : M Value :=
  evaluate scope (.array rows) plan.rest

/-- The plan with one more projection. -/
def plucked (plan : StreamPlan M) (names : M (List String)) : M (StreamPlan M) := do
  if plan.columns.isSome then
    throw (Error.unsupported "pluck" "pluck may only be applied once")
  if plan.distinct then throw (Error.unsupported "pluck" "cannot pluck after distinct")
  return { plan with columns := some (← names) }

/-- The plan with one more limit: the smallest counts. -/
def limited (plan : StreamPlan M) (n : Nat) : StreamPlan M :=
  { plan with limit := some (match plan.limit with
      | some m => min m n
      | none => n) }

end StreamPlan

variable [Monad M] [MonadExceptOf Error M]

/-- Splits a queue, going on from what has been taken into the query. -/
def planFrom (scope : Scope) (plan : StreamPlan M) : List (Entry M) → M (StreamPlan M)
  | [] => pure plan
  | .filter predicate :: rest => do
    if plan.limit.isSome || plan.columns.isSome then
      return plan.leave (.filter predicate :: rest)
    match ← compilePredicate scope predicate with
    | .const true => planFrom scope plan rest
    | .const false => return { plan.leave rest with kill := true }
    | .formula f => planFrom scope { plan with filters := plan.filters ++ [f] } rest
  | .distinct :: rest => do
    if plan.limit.isSome then return plan.leave (.distinct :: rest)
    if plan.distinct then
      throw (Error.unsupported "distinct" "distinct may only be applied once")
    planFrom scope { plan with distinct := true } rest
  | .pluck names :: rest => do
    planFrom scope (← plan.plucked (fieldNames scope "pluck" names)) rest
  | .limit n :: rest => do
    let n ← ofOutcome ((← n.resolve scope).asDouble "limit")
    planFrom scope (plan.limited n.toWord) rest
  | entry :: rest => return plan.leave (entry :: rest)

/-- Splits a queue into a query and the operations left. -/
def planStream (scope : Scope) (entries : List (Entry M)) : M (StreamPlan M) :=
  planFrom scope {} entries

/-- The primary keys of rows; a row without one is passed over. -/
def keyValues (rows : List Fields) (primaryKey : String) : List Value :=
  (rows.filterMap (fun row => row.get? primaryKey)).filter (fun k => !k.isNull)

end Sql

end QueryAlgebra
