/-!
# Doubles as whole numbers of quanta

A finite double-precision number is a sign and a whole number of *quanta*: the quantum is `2^-1074`,
the smallest positive double, and every other finite double is a multiple of it. Holding the
magnitude in quanta makes comparison, addition and remainder plain integer arithmetic; only the last
step of an operation rounds, and there is one rounding for all of them (`nearest`).

* `Double` carries two invariants: at most 53 leading bits of the magnitude are in use (`OnGrid`),
  and the magnitude is below `2^1024` (`bound`).
* `onGrid_roundToGrid`: what rounding answers is on the grid, for every quotient.
* `roundToGrid_le`: rounding does not leave a power-of-two range.
-/

namespace QueryAlgebra

namespace Double

/-! ## 1. The grid -/

/-- The binary places below the point: the quantum is `2^-scale`. -/
def scale : Nat := 1074

/-- The number one, in quanta. -/
def one : Nat := 1 <<< scale

/-- The first magnitude, in quanta, that no finite double reaches: `2^1024`. -/
def bound : Nat := 1 <<< (scale + 1024)

theorem shift_pos (k : Nat) : 0 < 1 <<< k := by
  rw [Nat.one_shiftLeft]; exact Nat.two_pow_pos k

theorem one_pos : 0 < one := shift_pos _

theorem bound_pos : 0 < bound := shift_pos _

/-- The distance between neighbouring doubles around a magnitude of `n` quanta: all that lies below
    the leading 53 bits of `n`. -/
def spacing (n : Nat) : Nat := 1 <<< (n.log2 - 52)

/-- A magnitude is on the grid when only its leading 53 bits are in use. -/
def OnGrid (n : Nat) : Prop := n % spacing n = 0

instance (n : Nat) : Decidable (OnGrid n) := inferInstanceAs (Decidable (_ = _))

theorem spacing_pos (n : Nat) : 0 < spacing n := shift_pos _

/-- Up to 53 bits, shifted anywhere, are on the grid. The bound `2^53` itself is allowed: it is a
    single bit. -/
theorem onGrid_shiftLeft {r : Nat} (hr : r ≤ 0x20000000000000) (k : Nat) : OnGrid (r <<< k) := by
  unfold OnGrid spacing
  rw [Nat.shiftLeft_eq, Nat.one_shiftLeft]
  rw [show (0x20000000000000 : Nat) = 2 ^ 53 from rfl] at hr
  rcases Nat.eq_zero_or_pos r with rfl | hpos
  · simp
  · have hne : r * 2 ^ k ≠ 0 := Nat.mul_ne_zero (by omega) (Nat.ne_of_gt (Nat.two_pow_pos k))
    rcases Nat.lt_or_eq_of_le hr with hlt | rfl
    · have hlog : (r * 2 ^ k).log2 < 53 + k := by
        rw [Nat.log2_lt hne, Nat.pow_add]
        exact Nat.mul_lt_mul_of_pos_right hlt (Nat.two_pow_pos k)
      have hdvd : 2 ^ ((r * 2 ^ k).log2 - 52) ∣ 2 ^ k := Nat.pow_dvd_pow 2 (by omega)
      exact Nat.mod_eq_zero_of_dvd (Nat.dvd_trans hdvd (Nat.dvd_mul_left _ _))
    · rw [← Nat.pow_add, Nat.log2_two_pow]
      exact Nat.mod_eq_zero_of_dvd (Nat.pow_dvd_pow 2 (by omega))

theorem onGrid_of_lt {n : Nat} (h : n < 0x20000000000000) : OnGrid n := by
  simpa using onGrid_shiftLeft (Nat.le_of_lt h) 0

end Double

/-- A finite double: a sign and a magnitude in quanta of `2^-1074`. Zero has both signs. -/
structure Double where
  /-- Whether the sign bit is set. -/
  negative : Bool
  /-- The magnitude, in quanta. -/
  quanta : Nat
  /-- Only the leading 53 bits are in use. -/
  onGrid : Double.OnGrid quanta
  /-- The magnitude is below `2^1024`. -/
  finite : quanta < Double.bound
deriving DecidableEq

namespace Double

/-- The value as a signed number of quanta; both zeros give `0`. -/
def toInt (d : Double) : Int := if d.negative then -(d.quanta : Int) else d.quanta

/-- Positive zero. -/
def zero : Double := ⟨false, 0, onGrid_of_lt (by decide), bound_pos⟩

instance : Inhabited Double := ⟨zero⟩

/-- The same magnitude with the other sign. -/
def neg (d : Double) : Double := { d with negative := !d.negative }

/-! ## 2. Comparison -/

/-- Whether the number is zero, of either sign. -/
def isZero (d : Double) : Bool := d.quanta == 0

/-- Equality of values: the two zeros are equal. -/
def same (a b : Double) : Bool := a.toInt == b.toInt

/-- The order of values. -/
def order (a b : Double) : Ordering := compare a.toInt b.toInt

@[simp] theorem toInt_neg (d : Double) : d.neg.toInt = -d.toInt := by
  cases h : d.negative <;> simp [neg, toInt, h]

theorem same_iff {a b : Double} : a.same b = true ↔ a.toInt = b.toInt := by simp [same]

theorem isZero_iff {d : Double} : d.isZero = true ↔ d.toInt = 0 := by
  cases h : d.negative <;> simp [isZero, toInt, h]

/-! ## 3. Rounding -/

/-- A quotient as a whole number: the nearer neighbour, and the even one of two equally near. -/
def roundDiv (num den : Nat) : Nat :=
  if 2 * (num % den) < den ∨ (2 * (num % den) = den ∧ num / den % 2 = 0) then num / den
  else num / den + 1

theorem roundDiv_le (num den : Nat) : roundDiv num den ≤ num / den + 1 := by
  unfold roundDiv; split <;> omega

@[simp] theorem roundDiv_one (n : Nat) : roundDiv n 1 = n := by
  simp [roundDiv, Nat.mod_one]

/-- A quotient of quanta as a magnitude on the grid: the nearer neighbour, and of two equally near
    the one with the even significand. -/
def roundToGrid (num den : Nat) : Nat :=
  roundDiv num (den * spacing (num / den)) * spacing (num / den)

theorem roundDiv_spacing_le (num den : Nat) :
    roundDiv num (den * spacing (num / den)) ≤ 0x20000000000000 := by
  have h := roundDiv_le num (den * spacing (num / den))
  have hq : num / (den * spacing (num / den)) < 2 ^ 53 := by
    rw [← Nat.div_div_eq_div_mul, Nat.div_lt_iff_lt_mul (spacing_pos _)]
    have hlt : num / den < 2 ^ ((num / den).log2 + 1) := Nat.lt_log2_self
    refine Nat.lt_of_lt_of_le hlt ?_
    rw [spacing, Nat.one_shiftLeft, ← Nat.pow_add]
    exact Nat.pow_le_pow_right (by decide) (by omega)
  omega

/-- **Rounding answers a magnitude on the grid.** -/
theorem onGrid_roundToGrid (num den : Nat) : OnGrid (roundToGrid num den) := by
  have h := onGrid_shiftLeft (roundDiv_spacing_le num den) ((num / den).log2 - 52)
  rwa [Nat.shiftLeft_eq, ← Nat.one_shiftLeft] at h

/-- **Rounding stays within a power of two:** a quotient below `2^k` rounds to at most `2^k`. -/
theorem roundToGrid_le {num den k : Nat} (hk : 53 ≤ k) (h : num / den < 1 <<< k) :
    roundToGrid num den ≤ 1 <<< k := by
  rw [Nat.one_shiftLeft] at h ⊢
  have hlog : (num / den).log2 ≤ k - 1 := by
    by_cases hz : num / den = 0
    · rw [hz]; exact Nat.zero_le _
    · have := (Nat.log2_lt hz).2 h; omega
  calc roundToGrid num den
      ≤ 2 ^ 53 * 2 ^ (k - 53) := by
        refine Nat.mul_le_mul (roundDiv_spacing_le num den) ?_
        rw [spacing, Nat.one_shiftLeft]
        exact Nat.pow_le_pow_right (by decide) (by omega)
    _ = 2 ^ k := by rw [← Nat.pow_add]; congr 1; omega

/-- A magnitude already on the grid is kept. -/
theorem roundToGrid_one {n : Nat} (h : OnGrid n) : roundToGrid n 1 = n := by
  have hd : n / spacing n * spacing n = n := Nat.div_mul_cancel (Nat.dvd_of_mod_eq_zero h)
  have hm : n % spacing n = 0 := h
  have hp := spacing_pos n
  simp [roundToGrid, roundDiv, hm, hp, hd]

/-- The double nearest to the signed quotient `num / den` of quanta; none when that is `2^1024` or
    more. -/
def nearest (negative : Bool) (num den : Nat) : Option Double :=
  if h : roundToGrid num den < bound then
    some ⟨negative, roundToGrid num den, onGrid_roundToGrid num den, h⟩
  else none

end Double

end QueryAlgebra
