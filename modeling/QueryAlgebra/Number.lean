import QueryAlgebra.Double.Decimal

/-!
# Numbers of a document

A number is an integer of at most 64 bits or a double, and the two stay apart: `5` and `5.0` are
different numbers with one value. Comparison goes by the value as a double; text keeps the
representation.
-/

namespace QueryAlgebra

/-- A number: an integer in `-2^63 .. 2^64 - 1`, or a finite double. -/
inductive Number where
  /-- A whole number in the range of 64 bits, signed or unsigned. -/
  | int (value : Int) (inRange : -0x8000000000000000 ≤ value ∧ value < 0x10000000000000000)
  /-- A finite double. -/
  | double (value : Double)
deriving DecidableEq

namespace Number

/-- An integer small enough to be held. -/
def ofInt? (i : Int) : Option Number :=
  if h : -0x8000000000000000 ≤ i ∧ i < 0x10000000000000000 then some (.int i h) else none

/-- A count, kept at the largest integer that can be held. -/
def ofCount (n : Nat) : Number := .int (min n 0xFFFFFFFFFFFFFFFF : Nat) (by omega)

instance : Inhabited Number := ⟨ofCount 0⟩

/-- The double nearest to the number. -/
def toDouble : Number → Double
  | .int i h => Double.ofInt i (by omega)
  | .double d => d

/-- The number that stands for a double in results: an integer when the double has no fraction and
    is smaller than `2^63`, else the double itself. -/
def ofDouble (d : Double) : Number :=
  match d.toInteger? with
  | some ⟨i, h⟩ => .int i (by omega)
  | none => .double d

/-- The number as a signed 64-bit integer, when it is held as one. -/
def toInt64? : Number → Option Int
  | .int i _ => if i < 0x8000000000000000 then some i else none
  | .double _ => none

/-- Equality of values: `5` and `5.0` are the same. -/
def same (a b : Number) : Bool := a.toDouble.same b.toDouble

/-- The order of values. -/
def order (a b : Number) : Ordering := a.toDouble.order b.toDouble

/-- Whether the value is zero. -/
def isZero (n : Number) : Bool := n.toDouble.isZero

/-- The text of a number: the digits of an integer, the fewest digits of a double. -/
def text : Number → String
  | .int i _ => toString i
  | .double d => d.text

/-- The number with integral doubles written as integers. -/
def normal : Number → Number
  | .int i h => .int i h
  | .double d => ofDouble d

end Number

end QueryAlgebra
