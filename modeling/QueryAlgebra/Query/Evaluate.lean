import QueryAlgebra.Query.Basic

/-!
# Evaluation

Folds a queue of operations over a value that is known. Operands are resolved right before their
operation, from left to right, and the first failure ends the run.

While a query is compiled a callback may be applied to the row under test, which has no value:
reading it fails.
-/

namespace QueryAlgebra

/-! ## 1. Operations on values -/

namespace Value

/-- A value as a double. -/
def asDouble (command : String) : Value → Except Error Double
  | .number n => .ok n.toDouble
  | v => .error (mismatch command "number" v)

/-- A value as a 64-bit integer: truncated, and kept in range. -/
def asInteger (command : String) (v : Value) : Except Error Int := do
  return (← v.asDouble command).truncate

/-- The items of an array. -/
def asArray (command : String) : Value → Except Error (List Value)
  | .array items => .ok items
  | v => .error (mismatch command "array" v)

/-- The string that a field name is. -/
def asFieldName (command : String) : Value → Except Error String
  | .string s => .ok s
  | v => .error (mismatch command "string" v)

/-- The length of a text or an array; null has length zero. -/
def length (command : String) : Value → Except Error Value
  | .null => .ok (count 0)
  | .string s => .ok (count s.length)
  | .array items => .ok (count items.length)
  | v => .error (mismatch command "string or array" v)

/-- The characters from a position on, at most `length` of them. A negative position counts from the
    end, a negative length is zero. -/
def substring (s : String) (start : Int) (length : Option Int) : String :=
  let chars := s.toList
  let total : Int := chars.length
  let start := if start < 0 then max (total + start) 0 else min start total
  let stop := match length with
    | some n => min (start + max n 0) total
    | none => total
  String.ofList ((chars.drop start.toNat).take (stop - start).toNat)

/-- Whether the text of a value begins with the text of another. -/
def beginsWith (v start : Value) : Bool := start.toText.toList.isPrefixOf v.toText.toList

/-- Whether the text of a value ends with the text of another. -/
def finishesWith (v ending : Value) : Bool := ending.toText.toList.isSuffixOf v.toText.toList

/-- The items that equal none of the others. -/
def without (items remove : List Value) : List Value :=
  items.filter (fun item => !remove.any (fun r => item.looseEq r))

/-- Whether every wanted value is an item. -/
def containsAll (items wanted : List Value) : Bool :=
  wanted.all (fun w => items.any (fun i => i.looseEq w))

/-- The items without repetition, given the fingerprints seen before; the first of a kind stays. -/
def distinctFrom (seen : List String) : List Value → List Value
  | [] => []
  | v :: rest =>
    if v.fingerprint ∈ seen then distinctFrom seen rest
    else v :: distinctFrom (v.fingerprint :: seen) rest

/-- Whether neighbours in a chain stand in the relation. -/
def chainHolds (relation : Relation) : List Value → Bool
  | a :: b :: rest =>
    (match a.compareLoose b with
      | some o => relation.holds o
      | none => false) && chainHolds relation (b :: rest)
  | _ => true

end Value

/-- One step of arithmetic. What has left the finite doubles stays outside. -/
def Arith.step (op : Arith) (a : Option Double) (b : Double) : Except Error (Option Double) :=
  match op with
  | .add => .ok (a.bind (fun a => a.add b))
  | .sub => .ok (a.bind (fun a => a.sub b))
  | .mul => .ok (a.bind (fun a => a.mul b))
  | .div =>
    if b.isZero then .error (.argument "division by zero") else .ok (a.bind (fun a => a.div b))
  | .mod =>
    if b.isZero then .error (.argument "modulo by zero") else .ok (a.bind (fun a => a.rem b))

/-- Arithmetic from left to right. -/
def Arith.fold (op : Arith) (current : Value) (operands : List Value) : Except Error Value := do
  let first ← current.asDouble op.command
  let total ← operands.foldlM
    (fun acc v => do op.step acc (← v.asDouble op.command)) (some first)
  return .ofDouble? total

/-- Arithmetic on a value; a sum that begins with a string appends texts. -/
def Arith.apply (op : Arith) (current : Value) (operands : List Value) : Except Error Value :=
  match op, current with
  | .add, .string s => .ok (.string (operands.foldl (fun acc v => acc ++ v.toText) s))
  | _, _ => op.fold current operands

/-! ## 2. Running a queue -/

variable {M : Type → Type} [Monad M] [MonadExceptOf Error M]

/-- Reading the row under test fails. -/
def rowHasNoValue : Error := .argument "a row reference can only be evaluated inside a query"

mutual

/-- The value of an operand. -/
def Operand.resolve (scope : Scope) : Operand M → M Value
  | .literal v => pure v
  | .task run => run scope
  | .node source entries => do evaluate scope (← source.seed scope) entries

/-- The value that a queue starts from. -/
def Source.seed (scope : Scope) : Source M → M Value
  | .row => throw rowHasNoValue
  | .parameter up =>
    match scope[up]? with
    | some (.value v) => pure v
    | _ => throw rowHasNoValue
  | .operand op => op.resolve scope

/-- The values of operands, in order. -/
def resolveAll (scope : Scope) : List (Operand M) → M (List Value)
  | [] => pure []
  | op :: rest => do
    let v ← op.resolve scope
    return v :: (← resolveAll scope rest)

/-- Whether a value passes a test. -/
def Predicate.holds (scope : Scope) (v : Value) : Predicate M → M Bool
  | .test body => do return (← body.resolve (.value v :: scope)).truthy
  | .pattern fields => pure (Predicate.patternHolds fields v)
  | .constant c => pure c.truthy

/-- The value of an argument of a branch. -/
def BranchArg.resolve (scope : Scope) (current : Value) : BranchArg M → M Value
  | .value op => op.resolve scope
  | .call body => body.resolve (.value current :: scope)

/-- The branch of a value that is not true: tests and actions by pairs, and at the end the false
    action. A test that no action follows is passed over. -/
def branchElse (scope : Scope) (current : Value) : List (BranchArg M) → M Value
  | [] => throw (Error.argument "branch requires a true and a false action")
  | [otherwise] => otherwise.resolve scope current
  | [_, otherwise] => otherwise.resolve scope current
  | test :: action :: rest => do
    if (← test.resolve scope current).truthy then action.resolve scope current
    else branchElse scope current rest

/-- The answer of one operation. -/
def Entry.apply (scope : Scope) (current : Value) : Entry M → M Value
  | .select selector => do ofOutcome (current.select (← selector.resolve scope))
  | .eq operands => do return .bool ((← resolveAll scope operands).any current.looseEq)
  | .ne operands => do
    return .bool ((← resolveAll scope operands).any (fun v => !current.looseEq v))
  | .or operands => do
    let values ← resolveAll scope operands
    return values.foldl (fun acc v => if acc.truthy then acc else v) current
  | .and operands => do
    let values ← resolveAll scope operands
    return values.foldl (fun acc v => if acc.truthy then v else acc) current
  | .not => pure (.bool !current.truthy)
  | .call body => body.resolve (.value current :: scope)
  | .branch [] => throw (Error.argument "branch requires a true and a false action")
  | .branch [_] => throw (Error.argument "branch requires a true and a false action")
  | .branch (action :: rest) =>
    if current.truthy then action.resolve scope current else branchElse scope current rest
  | .startsWith start => do return .bool (current.beginsWith (← start.resolve scope))
  | .endsWith ending => do return .bool (current.finishesWith (← ending.resolve scope))
  | .substr start none => do
    let start ← ofOutcome ((← start.resolve scope).asInteger "substr")
    return .string (Value.substring current.toText start none)
  | .substr start (some length) => do
    let start ← ofOutcome ((← start.resolve scope).asInteger "substr")
    let length ← ofOutcome ((← length.resolve scope).asInteger "substr")
    return .string (Value.substring current.toText start (some length))
  | .len => ofOutcome (current.length "len")
  | .arith op operands => do ofOutcome (op.apply current (← resolveAll scope operands))
  | .ordered relation operands => do
    return .bool (Value.chainHolds relation (current :: (← resolveAll scope operands)))
  | .count => do return .count (← ofOutcome (current.asArray "count")).length
  | .limit n => do
    let items ← ofOutcome (current.asArray "limit")
    let n ← ofOutcome ((← n.resolve scope).asInteger "limit")
    return .array (items.take n.toNat)
  | .difference remove => do
    let items ← ofOutcome (current.asArray "difference")
    let remove ← ofOutcome ((← remove.resolve scope).asArray "difference")
    return .array (Value.without items remove)
  | .contains operands => do
    let items ← ofOutcome (current.asArray "contains")
    return .bool (Value.containsAll items (← resolveAll scope operands))
  | .filter predicate => do
    let items ← ofOutcome (current.asArray "filter")
    return .array (← items.filterM (fun item => predicate.holds scope item))
  | .pluck names => do
    let items ← ofOutcome (current.asArray "pluck")
    let values ← resolveAll scope names
    let names ← ofOutcome (values.mapM (Value.asFieldName "pluck"))
    return .array (← ofOutcome (items.mapM (Value.pluck names "pluck")))
  | .map body => do
    let items ← ofOutcome (current.asArray "map")
    return .array (← items.mapM (fun item => body.resolve (.value item :: scope)))
  | .distinct => do
    return .array (Value.distinctFrom [] (← ofOutcome (current.asArray "distinct")))

/-- The answer of a queue of operations, applied in order. -/
def evaluate (scope : Scope) (current : Value) : List (Entry M) → M Value
  | [] => pure current
  | entry :: rest => do evaluate scope (← entry.apply scope current) rest

end

/-- The names that operands give to fields. -/
def fieldNames (scope : Scope) (command : String) (operands : List (Operand M)) :
    M (List String) := do
  let values ← resolveAll scope operands
  ofOutcome (values.mapM (Value.asFieldName command))

/-- The value of a datum. -/
def Datum.run (d : Datum M) : M Value := d.toOperand.resolve []

end QueryAlgebra
