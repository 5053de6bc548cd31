import QueryAlgebra.Proofs.Sql.Reading
import QueryAlgebra.Query.Basic

/-!
# Filters of column tests

Tests of columns, joined by `and`, `or` and `not`. A test compares a column with values and with
other columns. On a row such a filter has two readings: the evaluator's, in which every test is true
or false (`Part.accepts`), and one in which a test that meets a null is unknown (`Part.truth`).

* `Chain.entries`, `Part.operand`: the queue and the operand that a filter is written as.
* `ColumnTest.Comparable`: what is compared are numbers, texts or nulls.
-/

namespace QueryAlgebra

namespace Sql

/-! ## 1. Tests of columns -/

/-- What a column is compared with. -/
inductive Side where
  /-- A value. -/
  | value (v : Value)
  /-- Another column. -/
  | column (name : String)

/-- How a column is compared. -/
inductive Comparison where
  | eq
  | ne
  | ordered (relation : Relation)

/-- A column compared with values and columns. -/
structure ColumnTest where
  /-- The name of the column. -/
  column : String
  /-- How it is compared. -/
  comparison : Comparison
  /-- What it is compared with. -/
  others : List Side

mutual

/-- A test, and what is joined to it. -/
inductive Chain where
  | test (t : ColumnTest)
  | and (first : Chain) (parts : List Part)
  | or (first : Chain) (parts : List Part)
  | not (first : Chain)

/-- What is joined to a test: a truth value, or another test with what is joined to it. -/
inductive Part where
  | const (b : Bool)
  | chain (c : Chain)

end

section Queue

variable {M : Type → Type}

/-- A side as an operand. -/
def Side.operand : Side → Operand M
  | .value v => .literal v
  | .column name => .node (.parameter 0) [.select (.literal (.string name))]

/-- A comparison as an operation. -/
def Comparison.entry : Comparison → List (Operand M) → Entry M
  | .eq, operands => .eq operands
  | .ne, operands => .ne operands
  | .ordered relation, operands => .ordered relation operands

/-- A test as a queue on the row. -/
def ColumnTest.entries (t : ColumnTest) : List (Entry M) :=
  [.select (.literal (.string t.column)), t.comparison.entry (t.others.map Side.operand)]

mutual

/-- A test, and what is joined to it, as a queue on the row. -/
def Chain.entries : Chain → List (Entry M)
  | .test t => t.entries
  | .and first parts => Chain.entries first ++ [.and (Part.operands parts)]
  | .or first parts => Chain.entries first ++ [.or (Part.operands parts)]
  | .not first => Chain.entries first ++ [.not]

/-- A part as an operand. -/
def Part.operand : Part → Operand M
  | .const b => .literal (.bool b)
  | .chain c => .node (.parameter 0) (Chain.entries c)

/-- Parts as operands. -/
def Part.operands : List Part → List (Operand M)
  | [] => []
  | p :: rest => Part.operand p :: Part.operands rest

end

end Queue

/-! ## 2. Readings of a filter on a row -/

section Row

variable (row : Fields)

/-- The value of a side on a row. -/
def Side.on : Side → Value
  | .value v => v
  | .column name => columnOf row name

/-- The neighbours in a list. -/
def neighbours {α : Type} (l : List α) : List (α × α) := l.zip l.tail

/-- Whether two values stand in a relation. -/
def inOrder (relation : Relation) (a b : Value) : Bool :=
  match a.compareLoose b with
  | some o => relation.holds o
  | none => false

/-- The values that an ordered test runs through. -/
def ColumnTest.run (t : ColumnTest) : List Value :=
  columnOf row t.column :: t.others.map (Side.on row)

/-- The evaluator's answer to a test. -/
def ColumnTest.accepts (t : ColumnTest) : Bool :=
  match t.comparison with
  | .eq => t.others.any (fun s => (columnOf row t.column).looseEq (s.on row))
  | .ne => t.others.any (fun s => !(columnOf row t.column).looseEq (s.on row))
  | .ordered relation => (neighbours (t.run row)).all (fun p => inOrder relation p.1 p.2)

/-- Whether a value equals a side. This is unknown for a null, but a test against the null value
    itself asks whether there is one. -/
def Side.equals (v : Value) : Side → Truth
  | .value .null => some v.isNull
  | s => unlessNull Value.looseEq v (s.on row)

/-- Whether a value differs from a side. This is unknown for two columns that are both null. -/
def Side.differs (v : Value) : Side → Truth
  | .value .null => some !v.isNull
  | .value w => some !v.looseEq w
  | .column name =>
    if v.isNull && (columnOf row name).isNull then none else some !v.looseEq (columnOf row name)

/-- The answer to a test that meets unknowns. -/
def ColumnTest.truth (t : ColumnTest) : Truth :=
  match t.comparison with
  | .eq => Truth.any (t.others.map (Side.equals row (columnOf row t.column)))
  | .ne => Truth.any (t.others.map (Side.differs row (columnOf row t.column)))
  | .ordered relation =>
    Truth.all ((neighbours (t.run row)).map (fun p => unlessNull (inOrder relation) p.1 p.2))

mutual

/-- The evaluator's answer to a test and what is joined to it. -/
def Chain.accepts : Chain → Bool
  | .test t => t.accepts row
  | .and first parts => Chain.accepts first && (Part.answers parts).all id
  | .or first parts => Chain.accepts first || (Part.answers parts).any id
  | .not first => !Chain.accepts first

/-- The evaluator's answer to a part. -/
def Part.accepts : Part → Bool
  | .const b => b
  | .chain c => Chain.accepts c

/-- The evaluator's answers to parts. -/
def Part.answers : List Part → List Bool
  | [] => []
  | p :: rest => Part.accepts p :: Part.answers rest

end

mutual

/-- The answer, with unknowns, to a test and what is joined to it. -/
def Chain.truth : Chain → Truth
  | .test t => t.truth row
  | .and first parts => Truth.all (Chain.truth first :: Part.truths parts)
  | .or first parts => Truth.any (Chain.truth first :: Part.truths parts)
  | .not first => Truth.not (Chain.truth first)

/-- The answer to a part, with unknowns. -/
def Part.truth : Part → Truth
  | .const b => some b
  | .chain c => Chain.truth c

/-- The answers to parts, with unknowns. -/
def Part.truths : List Part → List Truth
  | [] => []
  | p :: rest => Part.truth p :: Part.truths rest

end

/-- A null is equal to nulls only. -/
theorem looseEq_eq_false {v w : Value} (h : v.isNull ≠ w.isNull) : v.looseEq w = false := by
  cases v <;> cases w <;> simp_all [Value.isNull, Value.looseEq]

/-- Two values that can be compared: two numbers, two texts, or one of them null. -/
def Matching (a b : Value) : Prop :=
  a = .null ∨ b = .null ∨ (∃ m n, a = .number m ∧ b = .number n) ∨
    ∃ s t, a = .string s ∧ b = .string t

/-- Every two values that a test compares can be compared. -/
def ColumnTest.Comparable (t : ColumnTest) : Prop :=
  match t.comparison with
  | .eq | .ne => ∀ s ∈ t.others, Matching (columnOf row t.column) (s.on row)
  | .ordered _ => ∀ p ∈ neighbours (t.run row), Matching p.1 p.2

end Row

mutual

/-- The tests of a chain. -/
def Chain.tests : Chain → List ColumnTest
  | .test t => [t]
  | .and first parts => Chain.tests first ++ Part.allTests parts
  | .or first parts => Chain.tests first ++ Part.allTests parts
  | .not first => Chain.tests first

/-- The tests of a part. -/
def Part.tests : Part → List ColumnTest
  | .const _ => []
  | .chain c => Chain.tests c

/-- The tests of parts. -/
def Part.allTests : List Part → List ColumnTest
  | [] => []
  | p :: rest => Part.tests p ++ Part.allTests rest

end

end Sql

end QueryAlgebra
