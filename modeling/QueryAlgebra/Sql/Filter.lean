import QueryAlgebra.Query.Evaluate
import QueryAlgebra.Sql.Expression

/-!
# Filters as SQL conditions

A predicate is applied to the row under test, and the queue that this makes is folded from left to
right. Until a test is written, what has been selected waits:

* `select` fills the place of the column, a second one the place of a field inside the column's JSON
  text, and a third one is refused;
* `eq` and `ne` on such a field look for the written field in the text; on a column they compare it
  with every operand, and any of the comparisons suffices;
* `gt`, `lt`, `ge`, `le` compare all neighbours of the chain;
* `substr`, `len` and arithmetic change the column that waits;
* `or` and `and` join what has been written with their operands;
* `not` negates what has been written, or else the next test.

A column left waiting at the end of a condition is compared with true.
-/

namespace QueryAlgebra

namespace Sql

/-! ## 1. What has been compiled -/

/-- The state between two operations of a queue. -/
structure Compiled where
  /-- The column that waits, and whether it always yields a number. -/
  column : Option (Expression × Bool) := none
  /-- The field inside the column's JSON text. -/
  subField : Option String := none
  /-- The condition written so far. -/
  condition : Option Condition := none
  /-- Whether the next test is negated. -/
  negateNext : Bool := false

namespace Compiled

/-- The error of an operation that needs a column. -/
def noColumn (command : String) : Error := .unsupported command "requires a selected column"

/-- The column that waits, by an operation that has no meaning inside JSON text. -/
def takeColumn (c : Compiled) (command : String) : Except Error (Expression × Bool × Compiled) :=
  match c.column, c.subField with
  | none, _ => .error (noColumn command)
  | some _, some _ =>
    .error (.unsupported command "only equality is supported inside sub-objects")
  | some (e, numeric), none => .ok (e, numeric, { c with column := none })

/-- Writes a test. -/
def emit (c : Compiled) (test : Condition) : Compiled :=
  let test := if c.negateNext then test.not else test
  { c with
    negateNext := false
    condition := some (match c.condition with
      | some written => .all [written, test]
      | none => test) }

/-- Writes the test of a column that is left waiting: it is compared with true. -/
def flush (c : Compiled) (command : String) : Except Error Compiled :=
  match c.column with
  | none => .ok c
  | some _ => do
    let (e, _, c) ← c.takeColumn command
    return c.emit (.formula (.eq e (.comparable (.bool true))))

/-- Selects a column, or a field inside it. -/
def selectField (c : Compiled) (command name : String) : Except Error Compiled :=
  match c.column, c.subField with
  | none, _ => .ok { c with column := some (.column name, false) }
  | some _, none => .ok { c with subField := some name }
  | some _, some _ => .error (.unsupported command "cannot filter via sub-objects")

/-- The condition of a whole queue. -/
def toCondition (c : Compiled) : Except Error Condition := do
  let c ← c.flush "filter"
  return c.condition.getD (.const !c.negateNext)

/-- The value of a whole queue: a column, or the truth value of what has been written. -/
def toTerm (c : Compiled) : Except Error Term :=
  match c.column, c.subField, c.condition with
  | some (e, numeric), none, none => .ok (.expression e numeric)
  | none, none, some (.formula f) => .ok (.expression (.truth f) false)
  | none, none, some (.const b) => .ok (.literal (.bool b))
  | _, _, _ => .error (.unsupported "select" "a row reference operand must select one column")

end Compiled

/-! ## 2. Tests -/

/-- The test that a column's JSON text holds a field with a value: the written field followed by a
    comma or by the end of the object. -/
def subFieldTest (column : Expression) (field : String) (negated : Bool) (v : Value) : Condition :=
  let needle := likeEscape ((Value.string field).json ++ ":" ++ v.json)
  let pattern (stop : String) := "%" ++ needle ++ stop ++ "%"
  if negated then
    .all [.formula (.notLike column (pattern ",")), .formula (.notLike column (pattern "\x7d"))]
  else .any [.formula (.like column (pattern ",")), .formula (.like column (pattern "\x7d"))]

/-- The test that a column equals a term, or differs from it. -/
def equalityTest (column : Term) (negated : Bool) (other : Term) : Condition :=
  .formula (match other with
    | .null => if negated then .isNotNull column.plain else .isNull column.plain
    | .literal _ =>
      if negated then .differs (column.against other) (other.against column)
      else .eq (column.against other) (other.against column)
    | .expression _ _ =>
      if negated then .differsBoth (column.against other) (other.against column)
      else .eq (column.against other) (other.against column))

/-- The comparisons of all neighbours in a chain. -/
def chainTests (relation : Relation) : List Term → List Condition
  | a :: b :: rest =>
    .formula (.ordered relation (a.against b) (b.against a)) :: chainTests relation (b :: rest)
  | _ => []

/-- The test that the text of a column begins with another text. -/
def startsWithTest (column : Expression) (v : Value) : Condition :=
  .formula (.like (.textView column) (likeEscape v.toText ++ "%"))

/-- The test that the text of a column ends with another text. -/
def endsWithTest (column : Expression) (v : Value) : Condition :=
  .formula (.like (.textView column) ("%" ++ likeEscape v.toText))

/-- The part of a text that starts at a position counted from zero, or from the end when
    negative. -/
def substrOf (column : Expression) (start : Int) (length : Option Int) : Expression :=
  let start := if 0 ≤ start then Position.fromStart (min (start + 1) 0x7FFFFFFFFFFFFFFF)
    else .fromEnd (-(start + 1))
  .substr (.textView column) start (length.map (max · 0))

/-- The error of an operation that no condition expresses. -/
def notAFilter (command : String) : Error :=
  .unsupported command "cannot be compiled into a SQL filter"

/-! ## 3. Compilation -/

variable {M : Type → Type} [Monad M] [MonadExceptOf Error M]

/-- Whether an operand is a queue on the row under test. -/
def isRowOperand (scope : Scope) : Operand M → Bool
  | .node source _ => source.isRow scope
  | _ => false

/-- The value of an operand that must not depend on the row. -/
def plainValue (scope : Scope) (command : String) (op : Operand M) : M Value :=
  if isRowOperand scope op then
    throw (Error.unsupported command "a row reference cannot be used as this operand")
  else op.resolve scope

/-- The values of operands that must not depend on the row, in order. -/
def plainValues (scope : Scope) (command : String) : List (Operand M) → M (List Value)
  | [] => pure []
  | op :: rest => do
    let v ← plainValue scope command op
    return v :: (← plainValues scope command rest)

/-- The tests of a field inside the column's JSON text; any of them suffices. -/
def compileSubFieldTests (scope : Scope) (c : Compiled) (command field : String) (negated : Bool)
    (operands : List (Operand M)) : M Compiled := do
  let (e, _, c) ← ofOutcome ({ c with subField := none }.takeColumn command)
  let values ← plainValues scope command operands
  return c.emit (.any (values.map (subFieldTest (.textView e) field negated)))

/-- The field that an operand names. -/
def fieldNameOf (command : String) : Value → Except Error String
  | .string s => .ok s
  | v => .error (.unsupported command ("only named fields can be selected, got " ++ v.json))

mutual

/-- An operand as a condition. -/
def compileCondition (scope : Scope) : Operand M → M Condition
  | .node source entries =>
    if source.isRow scope then do ofOutcome (← compileQueue scope {} entries).toCondition
    else do return .const (← (Operand.node source entries).resolve scope).truthy
  | .literal v => pure (.const v.truthy)
  | .task run => do return .const (← run scope).truthy

/-- Operands as conditions, in order. -/
def compileConditions (scope : Scope) : List (Operand M) → M (List Condition)
  | [] => pure []
  | op :: rest => do
    let c ← compileCondition scope op
    return c :: (← compileConditions scope rest)

/-- An operand as one side of a comparison. -/
def compileTerm (scope : Scope) : Operand M → M Term
  | .node source entries =>
    if source.isRow scope then do ofOutcome (← compileQueue scope {} entries).toTerm
    else do return .ofValue (← (Operand.node source entries).resolve scope)
  | .literal v => pure (.ofValue v)
  | .task run => do return .ofValue (← run scope)

/-- Operands as sides of comparisons, in order. -/
def compileTerms (scope : Scope) : List (Operand M) → M (List Term)
  | [] => pure []
  | op :: rest => do
    let t ← compileTerm scope op
    return t :: (← compileTerms scope rest)

/-- One operation of a queue on the row under test. -/
def compileEntry (scope : Scope) (c : Compiled) : Entry M → M Compiled
  | .select selector => do
    let name ← ofOutcome (fieldNameOf "select" (← plainValue scope "select" selector))
    ofOutcome (c.selectField "select" name)
  | .eq operands =>
    match c.subField with
    | some field => compileSubFieldTests scope c "eq" field false operands
    | none => do
      let (e, numeric, c) ← ofOutcome (c.takeColumn "eq")
      let terms ← compileTerms scope operands
      return c.emit (.any (terms.map (equalityTest (.expression e numeric) false)))
  | .ne operands =>
    match c.subField with
    | some field => compileSubFieldTests scope c "ne" field true operands
    | none => do
      let (e, numeric, c) ← ofOutcome (c.takeColumn "ne")
      let terms ← compileTerms scope operands
      return c.emit (.any (terms.map (equalityTest (.expression e numeric) true)))
  | .ordered relation operands => do
    let (e, numeric, c) ← ofOutcome (c.takeColumn relation.command)
    let terms ← compileTerms scope operands
    return c.emit (.all (chainTests relation (.expression e numeric :: terms)))
  | .startsWith start => do
    let (e, _, c) ← ofOutcome (c.takeColumn "starts_with")
    return c.emit (startsWithTest e (← plainValue scope "starts_with" start))
  | .endsWith ending => do
    let (e, _, c) ← ofOutcome (c.takeColumn "ends_with")
    return c.emit (endsWithTest e (← plainValue scope "ends_with" ending))
  | .substr start none => do
    let (e, _, c) ← ofOutcome (c.takeColumn "substr")
    let start ← ofOutcome ((← plainValue scope "substr" start).asInteger "substr")
    return { c with column := some (substrOf e start none, false) }
  | .substr start (some length) => do
    let (e, _, c) ← ofOutcome (c.takeColumn "substr")
    let start ← ofOutcome ((← plainValue scope "substr" start).asInteger "substr")
    let length ← ofOutcome ((← plainValue scope "substr" length).asInteger "substr")
    return { c with column := some (substrOf e start (some length), false) }
  | .len => do
    let (e, _, c) ← ofOutcome (c.takeColumn "len")
    return { c with column := some (.length (.textView e), true) }
  | .arith op operands => do
    let (e, numeric, c) ← ofOutcome (c.takeColumn op.command)
    let terms ← compileTerms scope operands
    let total := terms.foldl (fun acc t => Expression.arith op acc t.asNumber)
      (Term.expression e numeric).asNumber
    return { c with column := some (total, true) }
  | .or operands => do
    let c ← ofOutcome (c.flush "or")
    match c.condition with
    | none => throw (Error.unsupported "or" "requires a preceding condition")
    | some written =>
      let parts ← compileConditions scope operands
      return { c with condition := some (.any (written :: parts)) }
  | .and operands => do
    let c ← ofOutcome (c.flush "and")
    match c.condition with
    | none => throw (Error.unsupported "and" "requires a preceding condition")
    | some written =>
      let parts ← compileConditions scope operands
      return { c with condition := some (.all (written :: parts)) }
  | .not => do
    let c ← ofOutcome (c.flush "not")
    match c.condition with
    | some written => return { c with condition := some written.not }
    | none => return { c with negateNext := !c.negateNext }
  | .call _ => throw (notAFilter "do")
  | .branch _ => throw (notAFilter "branch")
  | .count => throw (notAFilter "count")
  | .limit _ => throw (notAFilter "limit")
  | .difference _ => throw (notAFilter "difference")
  | .contains _ => throw (notAFilter "contains")
  | .filter _ => throw (notAFilter "filter")
  | .pluck _ => throw (notAFilter "pluck")
  | .map _ => throw (notAFilter "map")
  | .distinct => throw (notAFilter "distinct")

/-- A queue on the row under test. -/
def compileQueue (scope : Scope) (c : Compiled) : List (Entry M) → M Compiled
  | [] => pure c
  | entry :: rest => do compileQueue scope (← compileEntry scope c entry) rest

end

/-- A predicate as a condition on rows. -/
def compilePredicate (scope : Scope) (predicate : Predicate M) : M Condition :=
  compileCondition (.row :: scope) (predicate.operand (.parameter 0))

end Sql

end QueryAlgebra
