import QueryAlgebra.Proofs.Double.Reading
import QueryAlgebra.Proofs.Value.Layout
import QueryAlgebra.Value.Select

/-!
# Positions in arrays

A number that selects from an array names a position: counted from zero, or from the end when it is
negative. Loosely equal numbers name one position, or positions that no array of fewer than `2^53` items
has. But only a number that is held as a signed 64-bit integer is read as the position it names. Every
other number, `1.0` as well as `2^63`, is read as position zero, and selects the first item.

* `Names`: what a position names.
* `names_iff`: what is found at a position is what the position names.
* `Double.eq_or_beyond_of_toInt_eq`: integers that are one double are one integer, or beyond 53 bits.
* `select_by_number`: the numbers that select what they name, and the loosely equal ones that select the
  same.
-/

namespace QueryAlgebra

/-! ## 1. Integers that are one double -/

namespace Number

/-- The number is held as a signed 64-bit integer. -/
def IsSigned (n : Number) : Prop := n.toInt64?.isSome = true

instance (n : Number) : Decidable n.IsSigned := inferInstanceAs (Decidable (_ = true))

/-- The value of the number is an integer, in whatever form it is held. -/
def HasValue (n : Number) (i : Int) : Prop := n.exact = i * Double.one

instance (n : Number) (i : Int) : Decidable (n.HasValue i) := inferInstanceAs (Decidable (_ = _))

theorem exists_of_isSigned {n : Number} (h : n.IsSigned) : ∃ i, n.toInt64? = some i :=
  Option.isSome_iff_exists.mp h

theorem toInt64?_of_not_isSigned {n : Number} (h : ¬n.IsSigned) : n.toInt64? = none := by
  simpa [IsSigned] using h

theorem eq_int_of_toInt64? {n : Number} {i : Int} (h : n.toInt64? = some i) :
    ∃ hi, n = .int i hi := by
  cases n with
  | int j hj =>
    rw [toInt64?, Option.ite_none_right_eq_some, Option.some.injEq] at h
    obtain ⟨-, rfl⟩ := h
    exact ⟨hj, rfl⟩
  | double d => cases h

/-- A number held as a signed integer has the value of that integer. -/
theorem toInt64?_eq_of_hasValue {n : Number} {i j : Int} (hi : n.HasValue i) (hj : n.toInt64? = some j) :
    j = i := by
  obtain ⟨hrange, rfl⟩ := eq_int_of_toInt64? hj
  exact Int.eq_of_mul_eq_mul_right (by exact_mod_cast Double.one_pos.ne') hi

end Number

namespace Double

variable {i j : Int} {hi : i.natAbs ≤ 0x10000000000000000} {hj : j.natAbs ≤ 0x10000000000000000}

/-- An integer of at least 54 bits is a double of at least `2^53`. -/
theorem le_quanta_ofInt (h : 0x20000000000000 ≤ i.natAbs) :
    0x20000000000000 * one ≤ (ofInt i hi).quanta := by
  have hgrid : OnGrid (0x20000000000000 * one) := by
    have hshift := onGrid_shiftLeft (Nat.le_refl 0x20000000000000) scale
    rwa [Nat.shiftLeft_eq, ← Nat.one_shiftLeft] at hshift
  calc 0x20000000000000 * one = roundToGrid (0x20000000000000 * one) 1 := (roundToGrid_one hgrid).symm
    _ ≤ roundToGrid (i.natAbs * one) 1 :=
      roundToGrid_mono Nat.one_pos Nat.one_pos (by gcongr)

theorem quanta_ofInt_lt (h : i.natAbs < 0x20000000000000) :
    (ofInt i hi).quanta < 0x20000000000000 * one := by
  have hvalue := toInt_ofInt (h := hi) h.le
  rw [← natAbs_toInt, hvalue, Int.natAbs_mul, Int.natAbs_natCast]
  exact Nat.mul_lt_mul_of_pos_right h one_pos

/-- Doubles of one value, other than zero, have one sign. -/
theorem negative_eq_of_toInt_eq {d e : Double} (h : d.toInt = e.toInt) (hne : d.quanta ≠ 0) :
    d.negative = e.negative := by
  have hquanta : d.quanta = e.quanta := by rw [← d.natAbs_toInt, h, e.natAbs_toInt]
  unfold toInt at h
  cases hd : d.negative <;> cases he : e.negative <;> simp only [hd, he] at h ⊢ <;> simp at h <;> omega

/-- **Integers that are one double are one integer,** or both are beyond 53 bits, on one side. -/
theorem eq_or_beyond_of_toInt_eq (h : (ofInt i hi).toInt = (ofInt j hj).toInt) :
    i = j ∨ (0x20000000000000 ≤ i ∧ 0x20000000000000 ≤ j) ∨
      (i ≤ -0x20000000000000 ∧ j ≤ -0x20000000000000) := by
  have hquanta : (ofInt i hi).quanta = (ofInt j hj).quanta := by
    rw [← natAbs_toInt, h, natAbs_toInt]
  rcases Nat.lt_or_ge i.natAbs 0x20000000000000 with hlt | hge
  · rcases Nat.lt_or_ge j.natAbs 0x20000000000000 with hlt' | hge'
    · rw [toInt_ofInt hlt.le, toInt_ofInt hlt'.le] at h
      exact Or.inl (Int.eq_of_mul_eq_mul_right (by exact_mod_cast one_pos.ne') h)
    · have hsmall : (ofInt i hi).quanta < 0x20000000000000 * one := quanta_ofInt_lt hlt
      have hbig : 0x20000000000000 * one ≤ (ofInt j hj).quanta := le_quanta_ofInt hge'
      omega
  · have hbig : 0x20000000000000 * one ≤ (ofInt i hi).quanta := le_quanta_ofInt hge
    have hone := one_pos
    have hge' : 0x20000000000000 ≤ j.natAbs := by
      by_contra hlt
      have hsmall : (ofInt j hj).quanta < 0x20000000000000 * one := quanta_ofInt_lt (Nat.lt_of_not_le hlt)
      omega
    have hsign : decide (i < 0) = decide (j < 0) :=
      negative_eq_of_toInt_eq h (Nat.ne_of_gt (Nat.lt_of_lt_of_le (by omega) hbig))
    rw [decide_eq_decide] at hsign
    omega

end Double

namespace Value

/-! ## 2. What a position names -/

variable {items : List Value} {i : Int}

/-- **What a position names in an array:** an item counted from zero, or from the end when the position
    is negative, and null on either side of the array. -/
inductive Names (items : List Value) : Int → Value → Prop
  | fromStart {k : Nat} (h : k < items.length) : Names items k items[k]
  | fromEnd {k : Nat} (hk : 0 < k) (h : k ≤ items.length) :
    Names items (-k) items[items.length - k]
  | before {i : Int} (h : i < -items.length) : Names items i .null
  | beyond {i : Int} (h : items.length ≤ i) : Names items i .null

theorem itemAt_of_nonneg (h : 0 ≤ i) : itemAt items i = (items[i.toNat]?).getD .null := by
  rw [itemAt, if_neg (by omega), if_neg (by omega)]

theorem itemAt_of_neg (h : i < 0) :
    itemAt items i
      = if items.length + i < 0 then .null else (items[(items.length + i).toNat]?).getD .null := by
  rw [itemAt, if_pos h]

theorem itemAt_beyond (h : items.length ≤ i) : itemAt items i = .null := by
  rw [itemAt_of_nonneg (by omega), List.getElem?_eq_none (by omega)]
  rfl

theorem itemAt_before (h : i < -items.length) : itemAt items i = .null := by
  rw [itemAt_of_neg (by omega), if_pos (by omega)]

theorem itemAt_zero (items : List Value) : itemAt items 0 = items.headD .null := by
  cases items <;> rfl

/-- A position names what is found there. -/
theorem names_itemAt (items : List Value) (i : Int) : Names items i (itemAt items i) := by
  rcases Int.lt_or_le i 0 with hneg | hpos
  · rcases Int.lt_or_le i (-items.length) with hout | hin
    · rw [itemAt_before hout]
      exact .before hout
    · obtain ⟨k, rfl⟩ : ∃ k : Nat, i = -k := ⟨i.natAbs, by omega⟩
      have hplace : (items.length + -(k : Int)).toNat = items.length - k := by omega
      have hk : items.length - k < items.length := by omega
      rw [itemAt_of_neg hneg, if_neg (by omega), hplace, List.getElem?_eq_getElem hk]
      exact .fromEnd (by omega) (by omega)
  · rcases Int.lt_or_le i items.length with hin | hout
    · obtain ⟨k, rfl⟩ := Int.eq_ofNat_of_zero_le hpos
      have hk : k < items.length := by omega
      rw [itemAt_of_nonneg hpos, Int.toNat_natCast, List.getElem?_eq_getElem hk]
      exact .fromStart hk
    · rw [itemAt_beyond hout]
      exact .beyond hout

/-- **A position names one value,** the one that is found there. -/
theorem names_iff {v : Value} : Names items i v ↔ v = itemAt items i := by
  refine ⟨fun h => ?_, fun h => h ▸ names_itemAt items i⟩
  cases h with
  | fromStart hk =>
    rw [itemAt_of_nonneg (by omega), Int.toNat_natCast, List.getElem?_eq_getElem hk]
    rfl
  | @fromEnd k hpos hk =>
    have hplace : (items.length + -(k : Int)).toNat = items.length - k := by omega
    have hlt : items.length - k < items.length := by omega
    rw [itemAt_of_neg (by omega), if_neg (by omega), hplace, List.getElem?_eq_getElem hlt]
    rfl
  | before hout => exact (itemAt_before hout).symm
  | beyond hout => exact (itemAt_beyond hout).symm

/-! ## 3. Selection -/

theorem select_number (items : List Value) (n : Number) :
    (Value.array items).select (.number n) = .ok (itemAt items (n.toInt64?.getD 0)) := by
  rw [select]

theorem select_of_signed {n : Number} (h : n.toInt64? = some i) :
    (Value.array items).select (.number n) = .ok (itemAt items i) := by
  rw [select_number, h]
  rfl

theorem select_of_not_signed {n : Number} (h : ¬n.IsSigned) :
    (Value.array items).select (.number n) = .ok (items.headD .null) := by
  rw [select_number, Number.toInt64?_of_not_isSigned h]
  exact congrArg Except.ok (itemAt_zero items)

/-- Signed integers that are one double select the same, from an array of fewer than `2^53` items. -/
theorem select_eq_of_signed {m n : Number} (h : m.same n = true) (hm : m.IsSigned) (hn : n.IsSigned)
    (hlength : items.length < 0x20000000000000) :
    (Value.array items).select (.number m) = (Value.array items).select (.number n) := by
  obtain ⟨i, hi⟩ := Number.exists_of_isSigned hm
  obtain ⟨j, hj⟩ := Number.exists_of_isSigned hn
  rw [select_of_signed hi, select_of_signed hj]
  obtain ⟨hrange, rfl⟩ := Number.eq_int_of_toInt64? hi
  obtain ⟨hrange', rfl⟩ := Number.eq_int_of_toInt64? hj
  have hvalue : (Double.ofInt i (by omega)).toInt = (Double.ofInt j (by omega)).toInt :=
    Double.same_iff.mp h
  rcases Double.eq_or_beyond_of_toInt_eq hvalue with rfl | ⟨hbig, hbig'⟩ | ⟨hbig, hbig'⟩
  · rfl
  · rw [itemAt_beyond (by omega), itemAt_beyond (by omega)]
  · rw [itemAt_before (by omega), itemAt_before (by omega)]

/-- Of two numbers of which one is held as a signed integer, both select the same exactly when that one
    names the first item. -/
theorem select_signed_eq_iff {m n : Number} (hi : m.toInt64? = some i) (hn : ¬n.IsSigned) :
    (Value.array items).select (.number m) = (Value.array items).select (.number n)
      ↔ Names items i (items.headD .null) := by
  rw [select_of_signed hi, select_of_not_signed hn, Except.ok.injEq, names_iff, eq_comm]

/-- **What numbers select from an array.** An integral number, in any form, selects what it names exactly
    when it is held as a signed integer, or what it names is the first item. Loosely equal numbers select
    the same when both are held as signed integers or neither is, and otherwise exactly when the signed
    one names the first item. -/
theorem select_by_number (items : List Value) :
    (∀ (n : Number) (i : Int), n.HasValue i →
      ((∃ v, (Value.array items).select (.number n) = .ok v ∧ Names items i v) ↔
        n.IsSigned ∨ Names items i (items.headD .null))) ∧
    (items.length < 0x20000000000000 → ∀ m n : Number, m.same n = true →
      ((Value.array items).select (.number m) = (Value.array items).select (.number n) ↔
        (m.IsSigned ↔ n.IsSigned) ∨
          ∃ i, (m.toInt64? = some i ∨ n.toInt64? = some i) ∧ Names items i (items.headD .null))) := by
  refine ⟨fun n i hi => ?_, fun hlength m n hsame => ?_⟩
  · by_cases hn : n.IsSigned
    · obtain ⟨j, hj⟩ := Number.exists_of_isSigned hn
      obtain rfl := Number.toInt64?_eq_of_hasValue hi hj
      exact iff_of_true ⟨_, select_of_signed hj, names_itemAt items j⟩ (Or.inl hn)
    · rw [select_of_not_signed hn]
      exact ⟨fun ⟨v, hv, hnames⟩ => Or.inr (Except.ok.inj hv ▸ hnames),
        fun h => ⟨_, rfl, h.resolve_left hn⟩⟩
  · by_cases hm : m.IsSigned <;> by_cases hn : n.IsSigned
    · exact iff_of_true (select_eq_of_signed hsame hm hn hlength) (Or.inl (iff_of_true hm hn))
    · obtain ⟨i, hi⟩ := Number.exists_of_isSigned hm
      rw [select_signed_eq_iff hi hn]
      simp [hm, hn, hi, Number.toInt64?_of_not_isSigned hn]
    · obtain ⟨i, hi⟩ := Number.exists_of_isSigned hn
      rw [eq_comm, select_signed_eq_iff hi hm]
      simp [hm, hn, hi, Number.toInt64?_of_not_isSigned hm]
    · rw [select_of_not_signed hm, select_of_not_signed hn]
      exact iff_of_true rfl (Or.inl (iff_of_false hm hn))

/-- Ten and twenty. -/
def tenTwenty : List Value := [.count 10, .count 20]

/-- Position minus one names the last item, and `2^53` and its neighbour, which are one double, select the
    same. -/
theorem select_last_of_two :
    (∃ v, (Value.array tenTwenty).select (.number (.int (-1) (by decide))) = .ok v ∧
        Names tenTwenty (-1) v) ∧
      (Value.array tenTwenty).select (.number (.int 0x20000000000000 (by decide)))
        = (Value.array tenTwenty).select (.number (.int 0x20000000000001 (by decide))) := by
  obtain ⟨hnames, hequal⟩ := select_by_number tenTwenty
  exact ⟨(hnames (.int (-1) (by decide)) (-1) (by decide +kernel)).mpr (Or.inl (by decide)),
    (hequal (by decide) _ _ (by decide +kernel)).mpr (Or.inl (by decide))⟩

/-- **One as a double selects the first item,** and one as an integer the second. Even `2^63`, which is past
    the end, selects the first. -/
theorem select_one_point_zero :
    (Number.int 1 (by decide)).same (.double (.ofInt 1 (by decide))) = true ∧
      (Value.array tenTwenty).select (.number (.int 1 (by decide))) = .ok (.count 20) ∧
      (Value.array tenTwenty).select (.number (.double (.ofInt 1 (by decide)))) = .ok (.count 10) ∧
      (Value.array tenTwenty).select (.number (.int 0x8000000000000000 (by decide)))
        = .ok (.count 10) ∧
      Names tenTwenty 0x8000000000000000 .null :=
  ⟨by decide +kernel, rfl, rfl, rfl, .beyond (by decide)⟩

end Value

end QueryAlgebra
