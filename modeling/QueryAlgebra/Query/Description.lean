import QueryAlgebra.Query.Evaluate
import QueryAlgebra.Text.Quoted

/-!
# Descriptions of queries

The one-line text that shows how a query is built. Callbacks and tasks are shown by `(..)`, and the
source of a nested datum as a quoted text.
-/

namespace QueryAlgebra

variable {M : Type → Type}

/-- Texts between brackets, separated by commas. -/
def describeList (texts : List String) : String := "[" ++ Text.joined ", " texts ++ "]"

/-- A named group: the name, and the content between parentheses. -/
def describeCall (name content : String) : String := name ++ "(" ++ content ++ ")"

/-- A named record with its fields between braces. -/
def describeRecord (name : String) (fields : List (String × String)) : String :=
  name ++ " \x7b " ++ Text.joined ", " (fields.map (fun f => f.1 ++ ": " ++ f.2)) ++ " \x7d"

/-- A datum, given the texts of its source and of its operations. -/
def describeDatum (source : String) (entries : List String) : String :=
  describeRecord "Datum" [("source", Text.quoted source), ("entries", describeList entries)]

mutual

/-- The text of an operand. -/
def Operand.describe (scope : Scope) : Operand M → String
  | .literal v => describeCall "Literal" v.json
  | .task _ => "Task(..)"
  | .node source entries =>
    describeCall "Node" (describeDatum (source.describe scope) (describeEntries scope entries))

/-- The text of the source of a datum. -/
def Source.describe (scope : Scope) : Source M → String
  | .row => "row"
  | .parameter up =>
    match scope[up]? with
    | some (.value v) => describeCall "Literal" v.json
    | _ => "row"
  | .operand op => op.describe scope

/-- The texts of operands. -/
def describeOperands (scope : Scope) : List (Operand M) → List String
  | [] => []
  | op :: rest => op.describe scope :: describeOperands scope rest

/-- The text of a predicate. -/
def Predicate.describe : Predicate M → String
  | .test _ => "Func(..)"
  | .pattern fields => describeCall "Match" (Value.object fields).json
  | .constant v => describeCall "Constant" v.json

/-- The texts of the arguments of a branch. -/
def describeArgs (scope : Scope) : List (BranchArg M) → List String
  | [] => []
  | .value op :: rest => describeCall "Value" (op.describe scope) :: describeArgs scope rest
  | .call _ :: rest => "Func(..)" :: describeArgs scope rest

/-- The text of an operation. -/
def Entry.describe (scope : Scope) : Entry M → String
  | .select op => describeCall "select" (op.describe scope)
  | .startsWith op => describeCall "starts_with" (op.describe scope)
  | .endsWith op => describeCall "ends_with" (op.describe scope)
  | .limit op => describeCall "limit" (op.describe scope)
  | .difference op => describeCall "difference" (op.describe scope)
  | .eq ops => describeCall "eq" (describeList (describeOperands scope ops))
  | .ne ops => describeCall "ne" (describeList (describeOperands scope ops))
  | .or ops => describeCall "or" (describeList (describeOperands scope ops))
  | .and ops => describeCall "and" (describeList (describeOperands scope ops))
  | .arith op ops => describeCall op.command (describeList (describeOperands scope ops))
  | .ordered relation ops =>
    describeCall relation.command (describeList (describeOperands scope ops))
  | .contains ops => describeCall "contains" (describeList (describeOperands scope ops))
  | .pluck ops => describeCall "pluck" (describeList (describeOperands scope ops))
  | .substr start none =>
    describeRecord "substr" [("start", start.describe scope), ("len", "None")]
  | .substr start (some length) =>
    describeRecord "substr"
      [("start", start.describe scope), ("len", describeCall "Some" (length.describe scope))]
  | .branch args => describeCall "branch" (describeList (describeArgs scope args))
  | .filter predicate => describeCall "filter" predicate.describe
  | .call _ => "do(..)"
  | .map _ => "map(..)"
  | .not => "not"
  | .len => "len"
  | .count => "count"
  | .distinct => "distinct"

/-- The texts of queued operations. -/
def describeEntries (scope : Scope) : List (Entry M) → List String
  | [] => []
  | entry :: rest => entry.describe scope :: describeEntries scope rest

end

/-- The text of a datum. -/
def Datum.describe (d : Datum M) : String :=
  describeDatum (d.source.describe []) (describeEntries [] d.entries)

/-- The text of the operand that a predicate makes of the row under test. -/
def Predicate.describeOperand (predicate : Predicate M) : String :=
  (predicate.operand .row).describe [.row]

end QueryAlgebra
