import Mathlib.Algebra.Group.Nat.Defs
import QueryAlgebra.Proofs.Outcome
import QueryAlgebra.Query.Evaluate

/-!
# Bounds of parts of texts

A part of a text is cut out between two positions, which are computed in signed integers of 64 bits:
a negative start is added to the length, and the length asked for is added to the start. This module
computes them so (`bounds?`), with sums that fail when they overflow and a cut that fails when it
leaves the text (`slice?`), and says that nothing ever fails: for every text, start and length the
bounds lie in order within the text and cut out what `Value.substring` answers
(`substring_in_bounds`).

The sum with the length may leave 64 bits and is kept within them (`cappedSum`); that changes
nothing, because it is cut to the length of the text afterwards (`toInt_min_cappedSum`).
-/

namespace QueryAlgebra

/-! ## 1. Sums of 64 bits -/

/-- The sum of two integers of 64 bits, none when it overflows. -/
def sum? (a b : Int64) : Option Int64 :=
  if h : Int64.minValue.toInt ≤ a.toInt + b.toInt ∧ a.toInt + b.toInt ≤ Int64.maxValue.toInt then
    some (.ofIntLE (a.toInt + b.toInt) h.1 h.2)
  else none

/-- The sum of two integers of 64 bits, kept within them. -/
def cappedSum (a b : Int64) : Int64 := .ofIntClamp (a.toInt + b.toInt)

section Words

variable {a b c : Int64}

theorem toInt_max : (max a b).toInt = max a.toInt b.toInt := by
  show (if a ≤ b then b else a).toInt = _
  by_cases h : a ≤ b
  · have hle := Int64.le_iff_toInt_le.mp h
    rw [if_pos h]
    omega
  · have hgt := mt Int64.le_iff_toInt_le.mpr h
    rw [if_neg h]
    omega

theorem toInt_min : (min a b).toInt = min a.toInt b.toInt := by
  show (if a ≤ b then a else b).toInt = _
  by_cases h : a ≤ b
  · have hle := Int64.le_iff_toInt_le.mp h
    rw [if_pos h]
    omega
  · have hgt := mt Int64.le_iff_toInt_le.mpr h
    rw [if_neg h]
    omega

/-- **A sum of a number that is not negative and one that is does not overflow.** -/
theorem sum?_of_neg (ha : 0 ≤ a.toInt) (hb : b.toInt < 0) :
    ∃ s : Int64, sum? a b = some s ∧ s.toInt = a.toInt + b.toInt := by
  have hlow := b.le_toInt
  have hhigh := a.toInt_lt
  have hfits : Int64.minValue.toInt ≤ a.toInt + b.toInt ∧
      a.toInt + b.toInt ≤ Int64.maxValue.toInt := by
    rw [Int64.toInt_minValue, Int64.toInt_maxValue]
    omega
  exact ⟨_, dif_pos hfits, Int64.toInt_ofIntLE⟩

/-- **Below a bound that fits, a sum that was kept within 64 bits is the sum.** -/
theorem toInt_min_cappedSum (ha : 0 ≤ a.toInt) (hb : 0 ≤ b.toInt) :
    (min (cappedSum a b) c).toInt = min (a.toInt + b.toInt) c.toInt := by
  rw [toInt_min]
  by_cases hfits : a.toInt + b.toInt ≤ Int64.maxValue.toInt
  · have hlow : Int64.minValue.toInt ≤ a.toInt + b.toInt := by
      rw [Int64.toInt_minValue]
      omega
    rw [cappedSum, Int64.toInt_ofIntClamp hlow hfits]
  · have hcapped : cappedSum a b = Int64.maxValue := by
      have hlow : Int64.minValue.toInt ≤ a.toInt + b.toInt := by
        rw [Int64.toInt_minValue]
        omega
      rw [cappedSum, Int64.ofIntClamp, dif_pos hlow, dif_neg hfits]
    have hc := c.toInt_le
    rw [hcapped]
    omega

end Words

/-! ## 2. Bounds and cuts -/

/-- The items from one position up to another; none when the positions do not lie in order within the
    list. -/
def slice? {α : Type} (items : List α) (first stop : Int64) : Option (List α) :=
  if 0 ≤ first ∧ first ≤ stop ∧ stop.toInt ≤ items.length then
    some ((items.take stop.toInt.toNat).drop first.toInt.toNat)
  else none

/-- Where a part of a text of so many characters begins; none when the sum overflows. -/
def first? (total start : Int64) : Option Int64 :=
  if start < 0 then (sum? total start).map (max · 0) else some (min start total)

/-- Where a part of a text of so many characters ends. -/
def stopAt (total first : Int64) : Option Int64 → Int64
  | some n => min (cappedSum first (max n 0)) total
  | none => total

/-- The positions between which a part of a text lies; none when a sum overflows. -/
def bounds? (total start : Int64) (length : Option Int64) : Option (Int64 × Int64) :=
  (first? total start).map fun first => (first, stopAt total first length)

/-- Where a part begins, in integers of any size. -/
def beginning (total start : Int) : Int :=
  if start < 0 then max (total + start) 0 else min start total

/-- Where a part ends, in integers of any size. -/
def ending (total first : Int) : Option Int → Int
  | some n => min (first + max n 0) total
  | none => total

theorem beginning_bounds {total : Int} (h : 0 ≤ total) (start : Int) :
    0 ≤ beginning total start ∧ beginning total start ≤ total := by
  unfold beginning
  split <;> omega

theorem ending_bounds {total first : Int} (h : first ≤ total) (length : Option Int) :
    first ≤ ending total first length ∧ ending total first length ≤ total := by
  unfold ending
  split <;> omega

section Bounds

variable {total start first : Int64}

theorem exists_first? (h : 0 ≤ total.toInt) (start : Int64) :
    ∃ first, first? total start = some first ∧ first.toInt = beginning total.toInt start.toInt := by
  unfold first? beginning
  by_cases hneg : start < 0
  · have hneg' : start.toInt < 0 := Int64.lt_iff_toInt_lt.mp hneg
    obtain ⟨s, hs, hsum⟩ := sum?_of_neg h hneg'
    refine ⟨max s 0, by rw [if_pos hneg, hs, Option.map_some], ?_⟩
    rw [if_pos hneg', toInt_max, hsum, Int64.toInt_zero]
  · have hneg' : ¬start.toInt < 0 := fun hlt => hneg (Int64.lt_iff_toInt_lt.mpr hlt)
    exact ⟨min start total, if_neg hneg, by rw [if_neg hneg', toInt_min]⟩

theorem toInt_stopAt (h : 0 ≤ first.toInt) (length : Option Int64) :
    (stopAt total first length).toInt
      = ending total.toInt first.toInt (length.map Int64.toInt) := by
  cases length with
  | none => rfl
  | some n =>
    have hcount : (max n 0).toInt = max n.toInt 0 := by rw [toInt_max, Int64.toInt_zero]
    rw [stopAt, toInt_min_cappedSum h (by omega), hcount]
    rfl

/-- **No sum overflows,** and the bounds are those in integers of any size. -/
theorem exists_bounds? (h : 0 ≤ total.toInt) (start : Int64) (length : Option Int64) : ∃ first stop,
    bounds? total start length = some (first, stop) ∧
    first.toInt = beginning total.toInt start.toInt ∧
    stop.toInt = ending total.toInt (beginning total.toInt start.toInt)
      (length.map Int64.toInt) := by
  obtain ⟨first, hfirst, hvalue⟩ := exists_first? h start
  have hnonneg := (beginning_bounds h start.toInt).1
  refine ⟨first, stopAt total first length, by rw [bounds?, hfirst, Option.map_some], hvalue, ?_⟩
  rw [toInt_stopAt (by omega), hvalue]

end Bounds

/-! ## 3. Parts of texts -/

/-- The characters of a text from a start on, a negative start counted from the end; no more than
    asked for. -/
def part (chars : List Char) (start : Int) (length : Option Int) : List Char :=
  let rest := chars.drop (if start < 0 then max 0 (chars.length + start) else start).toNat
  match length with
  | some n => rest.take (max 0 n).toNat
  | none => rest

section Parts

variable (start : Int)

theorem toList_substring (s : String) (length : Option Int) :
    (Value.substring s start length).toList
      = (s.toList.drop (beginning s.toList.length start).toNat).take
        (ending s.toList.length (beginning s.toList.length start) length
          - beginning s.toList.length start).toNat := by
  unfold Value.substring
  rw [String.toList_ofList]
  cases length <;> rfl

theorem drop_beginning (chars : List Char) :
    chars.drop (beginning chars.length start).toNat = part chars start none := by
  rw [part, List.drop_eq_drop_iff, beginning]
  split <;> omega

/-- What is cut out between the bounds is the part that is meant. -/
theorem take_drop_beginning (chars : List Char) (length : Option Int) :
    (chars.drop (beginning chars.length start).toNat).take
      (ending chars.length (beginning chars.length start) length
        - beginning chars.length start).toNat = part chars start length := by
  have hbounds := beginning_bounds (Int.natCast_nonneg chars.length) start
  have hlength := List.length_drop (i := (beginning chars.length start).toNat) (l := chars)
  cases length with
  | none =>
    rw [ending, List.take_of_length_le (by omega), drop_beginning]
  | some n =>
    have hpart : part chars start (some n) = (part chars start none).take (max 0 n).toNat := rfl
    rw [hpart, ← drop_beginning, List.take_eq_take_iff, ending]
    omega

end Parts

/-- **The part of a text lies within the text.** The bounds are computed without an overflow, lie in
    order between the ends of the text, and cut out what `Value.substring` answers: the characters from
    the start on, as many as asked for. The start and the length that evaluation reads off numbers are
    integers of 64 bits. -/
theorem substring_in_bounds (s : String) (h : s.length < 2 ^ 63) (start : Int64)
    (length : Option Int64) :
    (∃ first stop : Int64, bounds? (.ofNat s.length) start length = some (first, stop) ∧
      0 ≤ first ∧ first ≤ stop ∧ stop.toInt ≤ s.length ∧
      slice? s.toList first stop
        = some (Value.substring s start.toInt (length.map Int64.toInt)).toList) ∧
    (Value.substring s start.toInt (length.map Int64.toInt)).toList
      = part s.toList start.toInt (length.map Int64.toInt) ∧
    ∀ (command : String) (n : Number), ∃ w : Int64,
      (Value.number n).asInteger command = .ok w.toInt := by
  have htotal : (Int64.ofNat s.length).toInt = s.toList.length := by
    rw [Int64.toInt_ofNat_of_lt h, String.length_toList]
  have hsubstring := toList_substring start.toInt s (length.map Int64.toInt)
  refine ⟨?_, hsubstring.trans (take_drop_beginning _ _ _), fun command n => ?_⟩
  · obtain ⟨first, stop, hbounds, hfirst, hstop⟩ :=
      exists_bounds? (htotal ▸ Int.natCast_nonneg _) start length
    rw [htotal] at hfirst hstop
    have hbegin := beginning_bounds (Int.natCast_nonneg s.toList.length) start.toInt
    have hend := ending_bounds hbegin.2 (length.map Int64.toInt)
    rw [← hfirst] at hbegin hend hstop
    rw [← hstop] at hend
    have horder : 0 ≤ first ∧ first ≤ stop ∧ stop.toInt ≤ s.toList.length :=
      ⟨Int64.le_iff_toInt_le.mpr hbegin.1, Int64.le_iff_toInt_le.mpr hend.1, hend.2⟩
    refine ⟨first, stop, hbounds, horder.1, horder.2.1, s.length_toList ▸ horder.2.2, ?_⟩
    rw [slice?, if_pos horder, hsubstring, ← hfirst, ← hstop, List.drop_take]
    congr 2
    omega
  · have hclamp := Double.clamp_bounds n.toDouble.integerPart
    refine ⟨.ofIntClamp n.toDouble.truncate, ?_⟩
    rw [Int64.toInt_ofIntClamp]
    · rfl
    · rw [Int64.toInt_minValue]
      exact hclamp.1
    · rw [Int64.toInt_maxValue]
      exact hclamp.2

/-- Everything after the first character, asked for with the largest length there is: the sum of start
    and length leaves 64 bits. -/
theorem rest_of_abc : "abc".length < 2 ^ 63 ∧
    ∃ first stop : Int64, bounds? (.ofNat 3) 1 (some Int64.maxValue) = some (first, stop) ∧
      0 ≤ first ∧ first ≤ stop ∧ stop.toInt ≤ 3 ∧ slice? "abc".toList first stop = some ['b', 'c'] := by
  have hshort : "abc".length < 2 ^ 63 := by decide
  have hrest : (Value.substring "abc" (1 : Int64).toInt
      ((some Int64.maxValue).map Int64.toInt)).toList = ['b', 'c'] := by decide
  obtain ⟨first, stop, hbounds, hfirst, horder, hstop, hslice⟩ :=
    (substring_in_bounds "abc" hshort 1 (some Int64.maxValue)).1
  exact ⟨hshort, first, stop, hbounds, hfirst, horder, hstop, hrest ▸ hslice⟩

end QueryAlgebra
