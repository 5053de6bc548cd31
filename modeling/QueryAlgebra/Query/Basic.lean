import QueryAlgebra.Value.Select

/-!
# Queued operations

A *datum* is a source and a queue of operations that wait to be folded over the source's value. An
operation's operands may be deferred themselves: a literal, a task that computes a value, or a
nested datum. Operands are resolved when their operation runs, and not before.

`M` is the kind of computation that a task is. A query without tasks, or with tasks that only answer
or fail, lives in `Except Error`; one that reads tables lives in the computations of a session.

A callback is an operand with one more parameter in scope. Parameters are counted outward from the
innermost callback, so a query is plain data and every reading of it is a recursion on that data. A
*scope* lists what the enclosing callbacks are applied to.
-/

namespace QueryAlgebra

/-! ## 1. Names of operations -/

/-- An operation on numbers. -/
inductive Arith where
  | add | sub | mul | div | mod
deriving DecidableEq, Repr

/-- A relation between neighbours in a chain of comparisons. -/
inductive Relation where
  | gt | lt | ge | le
deriving DecidableEq, Repr

/-- The name of an operation on numbers. -/
def Arith.command : Arith → String
  | .add => "add"
  | .sub => "sub"
  | .mul => "mul"
  | .div => "div"
  | .mod => "mod"

/-- The name of a comparison. -/
def Relation.command : Relation → String
  | .gt => "gt"
  | .lt => "lt"
  | .ge => "ge"
  | .le => "le"

/-- Whether two ordered values stand in the relation. -/
def Relation.holds : Relation → Ordering → Bool
  | .gt, o => o == .gt
  | .lt, o => o == .lt
  | .ge, o => o != .lt
  | .le, o => o != .gt

/-! ## 2. Queries -/

/-- What a callback is applied to. -/
inductive Subject where
  /-- The row under test while a predicate is compiled. It has no value. -/
  | row
  /-- A value. -/
  | value (v : Value)

/-- What the enclosing callbacks are applied to, innermost first. -/
abbrev Scope := List Subject

mutual

/-- A value that may still be deferred. -/
inductive Operand (M : Type → Type) where
  /-- A value that is known. -/
  | literal (v : Value)
  /-- A computation that answers the value. It may read the parameters of enclosing callbacks. -/
  | task (run : Scope → M Value)
  /-- A nested datum. -/
  | node (source : Source M) (entries : List (Entry M))

/-- Where the value of a datum comes from. -/
inductive Source (M : Type → Type) where
  /-- The row under test. -/
  | row
  /-- The parameter of an enclosing callback, counted outward from zero. -/
  | parameter (up : Nat)
  /-- A literal, a task or a nested datum. -/
  | operand (op : Operand M)

/-- A test on rows. -/
inductive Predicate (M : Type → Type) where
  /-- A callback that answers a truth value. -/
  | test (body : Operand M)
  /-- Equality of all leaves of an object with the fields they name. -/
  | pattern (fields : List (String × Value))
  /-- The same answer for every row. -/
  | constant (v : Value)

/-- An argument of a branch. -/
inductive BranchArg (M : Type → Type) where
  /-- A value. -/
  | value (op : Operand M)
  /-- A callback on the current value. -/
  | call (body : Operand M)

/-- A queued operation. -/
inductive Entry (M : Type → Type) where
  /-- Narrows to a field or position. -/
  | select (selector : Operand M)
  /-- Equal to any of the operands. -/
  | eq (operands : List (Operand M))
  /-- Different from any of the operands. -/
  | ne (operands : List (Operand M))
  /-- The first true one of the current value and the operands, else the last. -/
  | or (operands : List (Operand M))
  /-- The first false one of the current value and the operands, else the last. -/
  | and (operands : List (Operand M))
  /-- Negation. -/
  | not
  /-- A callback on the current value. -/
  | call (body : Operand M)
  /-- A true action, pairs of test and action, and a false action. -/
  | branch (args : List (BranchArg M))
  /-- Whether the text begins with another. -/
  | startsWith (start : Operand M)
  /-- Whether the text ends with another. -/
  | endsWith (ending : Operand M)
  /-- The part of the text from a position on. -/
  | substr (start : Operand M) (length : Option (Operand M))
  /-- The length of a text or an array. -/
  | len
  /-- Arithmetic, from left to right. -/
  | arith (op : Arith) (operands : List (Operand M))
  /-- A chain of comparisons. -/
  | ordered (relation : Relation) (operands : List (Operand M))
  /-- The number of items. -/
  | count
  /-- The first items. -/
  | limit (n : Operand M)
  /-- The items that are not in another array. -/
  | difference (remove : Operand M)
  /-- Whether every operand is an item. -/
  | contains (operands : List (Operand M))
  /-- The items that pass a test. -/
  | filter (predicate : Predicate M)
  /-- The named fields of every item. -/
  | pluck (names : List (Operand M))
  /-- A callback on every item. -/
  | map (body : Operand M)
  /-- The items without repetition. -/
  | distinct

end

/-- A deferred expression: a source and the operations queued on it. -/
structure Datum (M : Type → Type) where
  /-- Where the value comes from. -/
  source : Source M
  /-- The operations that wait, oldest first. -/
  entries : List (Entry M)

variable {M : Type → Type}

instance : Inhabited (Operand M) := ⟨.literal .null⟩
instance : Inhabited (Predicate M) := ⟨.constant .null⟩
instance : Inhabited (BranchArg M) := ⟨.value default⟩
instance : Inhabited (Entry M) := ⟨.not⟩

/-- The name of an operation, as errors give it. -/
def Entry.command : Entry M → String
  | .select _ => "select"
  | .eq _ => "eq"
  | .ne _ => "ne"
  | .or _ => "or"
  | .and _ => "and"
  | .not => "not"
  | .call _ => "do"
  | .branch _ => "branch"
  | .startsWith _ => "starts_with"
  | .endsWith _ => "ends_with"
  | .substr _ _ => "substr"
  | .len => "len"
  | .arith op _ => op.command
  | .ordered relation _ => relation.command
  | .count => "count"
  | .limit _ => "limit"
  | .difference _ => "difference"
  | .contains _ => "contains"
  | .filter _ => "filter"
  | .pluck _ => "pluck"
  | .map _ => "map"
  | .distinct => "distinct"

/-- Whether a source stands for the row under test: the row itself, or the parameter of a callback
    that is applied to it. -/
def Source.isRow (scope : Scope) : Source M → Bool
  | .row => true
  | .parameter up =>
    match scope[up]? with
    | some .row => true
    | _ => false
  | .operand _ => false

/-! ## 3. Building -/

namespace Datum

/-- A datum on a value, or on a deferred value. -/
def ofOperand (op : Operand M) : Datum M := ⟨.operand op, []⟩

/-- The datum that stands for the row under test. -/
def row : Datum M := ⟨.row, []⟩

/-- Whether the datum stands for the row under test. -/
def isRow (d : Datum M) : Bool := d.source.isRow []

/-- Queues operations. -/
def push (d : Datum M) (entries : List (Entry M)) : Datum M :=
  { d with entries := d.entries ++ entries }

/-- The datum as an operand. -/
def toOperand (d : Datum M) : Operand M := .node d.source d.entries

/-- The datum without its queue, as it is left by a run. -/
def drained (d : Datum M) : Datum M := { d with entries := [] }

end Datum

/-- A branch with its arguments checked: a true action, pairs of test and action, a false action. -/
def Entry.branchOf (args : List (BranchArg M)) : Except Error (Entry M) :=
  if args.length < 2 ∨ args.length % 2 ≠ 0 then
    .error (.argument ("branch expects a true action, [test, action] pairs and a false action, got "
      ++ toString args.length ++ " arguments"))
  else .ok (.branch args)

/-! ## 4. Structural predicates -/

namespace Predicate

/-- The predicate that a plain value stands for: an object is a pattern, anything else is
    constant. -/
def structural : Value → Predicate M
  | .object fields => .pattern fields
  | v => .constant v

/-- The test of one leaf: the path selected from the source, compared with the value. -/
def leafEntries (leaf : List String × Value) : List (Entry M) :=
  leaf.1.map (fun name => .select (.literal (.string name))) ++ [.eq [.literal leaf.2]]

/-- A pattern as an operand on a source: the test of the first leaf, and the tests of the others
    joined to it. Without leaves it is true. -/
def patternOperand (source : Source M) (fields : Fields) : Operand M :=
  match Value.leavesOfFields fields with
  | [] => .literal (.bool true)
  | [leaf] => .node source (leafEntries leaf)
  | leaf :: rest =>
    .node source (leafEntries leaf ++ [.and (rest.map (fun l => .node source (leafEntries l)))])

/-- The operand that a predicate makes of a source. A callback's body is its own operand, to be read
    with the source as its innermost parameter. -/
def operand (source : Source M) : Predicate M → Operand M
  | .test body => body
  | .pattern fields => patternOperand source fields
  | .constant v => .literal v

/-- Whether a value has all leaves of a pattern. -/
def patternHolds (fields : Fields) (v : Value) : Bool :=
  (Value.leavesOfFields fields).all (fun leaf => (v.path leaf.1).looseEq leaf.2)

end Predicate

end QueryAlgebra
