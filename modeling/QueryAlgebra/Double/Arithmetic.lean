import QueryAlgebra.Double.Basic

/-!
# Arithmetic on doubles

Every operation computes in exact integers of quanta and rounds once at the end. An answer is `none`
when the rounded result leaves the finite doubles; a running computation that has left them stays
outside, because every further operand is finite (an infinity plus, minus, times or over a finite
number is an infinity or not a number).

* `ofInt`: the double nearest to a 64-bit integer.
* `truncate`: the integer part, kept within the signed 64-bit range.
* `toInteger?`: the integer a double stands for, when it has no fraction and is below `2^63`.
-/

namespace QueryAlgebra

namespace Double

/-! ## 1. Sums, products, quotients -/

/-- The sum. An exact sum of zero is negative only when both operands are. -/
def add (a b : Double) : Option Double :=
  let s := a.toInt + b.toInt
  nearest (if s = 0 then a.negative && b.negative else decide (s < 0)) s.natAbs 1

/-- The difference: the sum with the other sign. -/
def sub (a b : Double) : Option Double := a.add b.neg

/-- The product: quanta times quanta, less one scale of `2^1074`. -/
def mul (a b : Double) : Option Double :=
  nearest (a.negative != b.negative) (a.quanta * b.quanta) one

/-- The quotient by a number other than zero. -/
def div (a b : Double) : Option Double :=
  nearest (a.negative != b.negative) (a.quanta * one) b.quanta

/-- The remainder of division toward zero by a number other than zero, with the sign of the
    dividend. Both operands are whole numbers of quanta, so it is exact. -/
def rem (a b : Double) : Option Double :=
  nearest a.negative (a.quanta % b.quanta) 1

/-! ## 2. Integers -/

theorem ofInt_lt {n : Nat} (h : n ≤ 0x10000000000000000) : roundToGrid (n * one) 1 < bound := by
  unfold one bound
  generalize scale = k
  have hq : n * 1 <<< k / 1 < 1 <<< (k + 65) := by
    rw [Nat.div_one, Nat.one_shiftLeft, Nat.one_shiftLeft]
    calc n * 2 ^ k ≤ 2 ^ 64 * 2 ^ k := Nat.mul_le_mul_right _ h
      _ = 2 ^ (k + 64) := by rw [← Nat.pow_add, Nat.add_comm]
      _ < 2 ^ (k + 65) := Nat.pow_lt_pow_right (by decide) (by omega)
  refine Nat.lt_of_le_of_lt (roundToGrid_le (by omega) hq) ?_
  rw [Nat.one_shiftLeft, Nat.one_shiftLeft]
  exact Nat.pow_lt_pow_right (by decide) (by omega)

/-- The double nearest to an integer of at most 64 bits. -/
def ofInt (i : Int) (h : i.natAbs ≤ 0x10000000000000000) : Double :=
  ⟨decide (i < 0), roundToGrid (i.natAbs * one) 1, onGrid_roundToGrid _ _, ofInt_lt h⟩

/-- The integer part, toward zero, of any size. -/
def integerPart (d : Double) : Int :=
  if d.negative then -((d.quanta / one : Nat) : Int) else (d.quanta / one : Nat)

/-- An integer kept within the signed 64-bit range. -/
def clamp (i : Int) : Int := max (-0x8000000000000000) (min i 0x7FFFFFFFFFFFFFFF)

/-- The integer part, toward zero, kept within the signed 64-bit range. -/
def truncate (d : Double) : Int := clamp d.integerPart

/-- The integer part, kept within the unsigned 64-bit range. -/
def toWord (d : Double) : Nat := min d.integerPart.toNat 0xFFFFFFFFFFFFFFFF

/-- Whether the number has no fraction. -/
def isIntegral (d : Double) : Bool := d.quanta % one == 0

theorem clamp_bounds (i : Int) :
    -0x8000000000000000 ≤ clamp i ∧ clamp i ≤ 0x7FFFFFFFFFFFFFFF := by
  unfold clamp; omega

/-- The integer a double stands for: it has no fraction and is smaller than `2^63`. -/
def toInteger? (d : Double) : Option { i : Int // i.natAbs < 0x8000000000000000 } :=
  if d.isIntegral then
    if h : d.integerPart.natAbs < 0x8000000000000000 then some ⟨d.integerPart, h⟩ else none
  else none

end Double

end QueryAlgebra
