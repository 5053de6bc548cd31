import QueryAlgebra.Proofs.Value.Agreement

/-!
# Loose equality against fingerprints

A fingerprint is a text, so it sees how a value is written; loose equality does not. This module says
how far the two go together: loosely equal values have one fingerprint exactly when they are written
alike (`fingerprint_eq_iff_of_looseEq`).

* A number that stands alone may be an integer or a double without fraction, as long as the two are one
  number and below `2^63` (`Number.Matches`).
* Inside an array or an object every number must have the form of its partner, and the fields of an
  object must come in the same order (`Value.Alike`): then the values are the same
  (`eq_of_looseEq_of_alike`).
-/

namespace QueryAlgebra

/-! ## 1. Numbers -/

namespace Double

theorem natAbs_toInt (d : Double) : d.toInt.natAbs = d.quanta := by
  unfold toInt
  split <;> omega

/-- Doubles of one value and one sign are the same. -/
theorem eq_of_toInt_eq {d e : Double} (h : d.toInt = e.toInt) (hsign : d.negative = e.negative) :
    d = e := by
  have hquanta : d.quanta = e.quanta := by rw [← d.natAbs_toInt, h, e.natAbs_toInt]
  exact eq_of_quanta hsign hquanta

section Integers

variable {d : Double} {i : Int} (h : i * one = d.toInt)

include h

theorem quanta_eq_of_toInt : d.quanta = i.natAbs * one := by
  rw [← d.natAbs_toInt, ← h, Int.natAbs_mul, Int.natAbs_natCast]

/-- What is a whole number is its own integer part. -/
theorem integerPart_eq_of_toInt : d.integerPart = i := by
  have hquanta := quanta_eq_of_toInt h
  have hcancel : ∀ j : Int, i * one = j * one → i = j := fun j =>
    Int.eq_of_mul_eq_mul_right (by exact_mod_cast one_pos.ne')
  unfold toInt at h
  unfold integerPart
  rw [hquanta] at h ⊢
  rw [Nat.mul_div_cancel _ one_pos]
  rw [Nat.cast_mul] at h
  split at h
  · rw [if_pos ‹_›]
    exact (hcancel _ (h.trans (Int.neg_mul _ _).symm)).symm
  · rw [if_neg ‹_›]
    exact (hcancel _ h).symm

end Integers

/-- The value of a double that stands for an integer. -/
theorem toInt_of_toInteger? {d : Double} {i : { i : Int // i.natAbs < 0x8000000000000000 }}
    (h : d.toInteger? = some i) : i.val * one = d.toInt := by
  obtain ⟨hpart, hquanta⟩ := quanta_of_toInteger? h
  have hsize : (d.quanta : Int) = i.val.natAbs * one := by exact_mod_cast hquanta.symm
  unfold integerPart at hpart
  unfold toInt
  rw [hsize]
  generalize d.quanta / one = q at hpart
  split at hpart
  · have habs : (i.val.natAbs : Int) = -i.val := by omega
    rw [if_pos ‹_›, habs, Int.neg_mul, Int.neg_neg]
  · have habs : (i.val.natAbs : Int) = i.val := by omega
    rw [if_neg ‹_›, habs]

/-- **A double stands for the integer of its value,** when that is below `2^63`. -/
theorem toInteger?_eq_some_iff {d : Double} {i : { i : Int // i.natAbs < 0x8000000000000000 }} :
    d.toInteger? = some i ↔ i.val * one = d.toInt := by
  refine ⟨toInt_of_toInteger?, fun h => ?_⟩
  have hpart := integerPart_eq_of_toInt h
  have hintegral : d.isIntegral = true := by
    rw [isIntegral, quanta_eq_of_toInt h, Nat.mul_mod_left, beq_self_eq_true]
  rw [toInteger?, if_pos hintegral, dif_pos (hpart ▸ i.property)]
  exact congrArg some (Subtype.ext hpart)

end Double

namespace Number

/-- Whether the number is held as an integer. -/
def isInt : Number → Bool
  | .int _ _ => true
  | .double _ => false

/-- The numbers have one form: they are the same integer, or doubles of one sign. -/
def Alike : Number → Number → Prop
  | .int i _, .int j _ => i = j
  | .double d, .double e => d.negative = e.negative
  | _, _ => False

/-- The numbers are exactly one number, and have one form or are below `2^63`. -/
def Matches (m n : Number) : Prop :=
  m.exact = n.exact ∧ (m.isInt = n.isInt ∨ m.exact.natAbs < 0x8000000000000000 * Double.one)

theorem eq_of_same_of_alike {m n : Number} (hsame : m.same n = true) (halike : m.Alike n) :
    m = n := by
  cases m with
  | int i hi =>
    cases n with
    | int j hj =>
      obtain rfl : i = j := halike
      rfl
    | double e => exact absurd halike id
  | double d =>
    cases n with
    | int j hj => exact absurd halike id
    | double e =>
      exact congrArg Number.double (Double.eq_of_toInt_eq (Double.same_iff.mp hsame) halike)

theorem alike_self (n : Number) : n.Alike n := by
  cases n with
  | int i hi => exact rfl
  | double d => exact rfl

/-- **A double is written as an integer when it is one and below `2^63`.** -/
theorem ofDouble_eq_int_iff {d : Double} {i : Int}
    {hi : -0x8000000000000000 ≤ i ∧ i < 0x10000000000000000} :
    ofDouble d = .int i hi ↔ i * Double.one = d.toInt ∧ i.natAbs < 0x8000000000000000 := by
  unfold ofDouble
  constructor
  · intro h
    split at h
    · next j hj heq =>
      obtain rfl : j = i := (Number.int.inj h)
      exact ⟨Double.toInteger?_eq_some_iff.mp heq, hj⟩
    · cases h
  · rintro ⟨hvalue, hbound⟩
    have hsome : d.toInteger? = some ⟨i, hbound⟩ := Double.toInteger?_eq_some_iff.mpr hvalue
    rw [hsome]

/-- Doubles of one value have one normal form: only of zero there are two. -/
theorem ofDouble_congr {d e : Double} (h : d.toInt = e.toInt) : ofDouble d = ofDouble e := by
  have hinteger : d.toInteger? = e.toInteger? := by
    refine Option.ext fun i => ?_
    rw [Double.toInteger?_eq_some_iff, Double.toInteger?_eq_some_iff, h]
  unfold ofDouble
  rw [hinteger]
  split
  · rfl
  · next hnone =>
    have hzero : e.toInt ≠ 0 := by
      intro hzero
      have hsome : e.toInteger? = some ⟨0, by decide⟩ :=
        Double.toInteger?_eq_some_iff.mpr (by rw [hzero, Int.zero_mul])
      rw [hnone] at hsome
      cases hsome
    have hsign : d.negative = e.negative := by
      unfold Double.toInt at h hzero
      revert h hzero
      cases d.negative <;> cases e.negative <;> simp
    rw [Double.eq_of_toInt_eq h hsign]

/-- **Numbers of one double have one normal form exactly when they match.** -/
theorem normal_eq_iff_matches {m n : Number} (h : m.same n = true) :
    m.normal = n.normal ↔ m.Matches n := by
  have hone := Double.one_pos
  have hbound : ∀ i : Int, (i * Double.one).natAbs < 0x8000000000000000 * Double.one ↔
      i.natAbs < 0x8000000000000000 := by
    intro i
    rw [Int.natAbs_mul, Int.natAbs_natCast]
    exact Nat.mul_lt_mul_right hone
  cases m with
  | int i hi =>
    cases n with
    | int j hj =>
      simp [normal, Matches, exact, isInt, hone.ne']
    | double e =>
      -- the integer is its own normal form, so the double has to be written as that integer
      have hflip : Number.int i hi = ofDouble e ↔ ofDouble e = .int i hi := eq_comm
      simp only [normal, Matches, exact, isInt, hflip, ofDouble_eq_int_iff, hbound,
        Bool.true_eq_false, false_or]
  | double d =>
    cases n with
    | int j hj =>
      simp only [normal, Matches, exact, isInt, ofDouble_eq_int_iff, Bool.false_eq_true, false_or]
      constructor
      · rintro ⟨hvalue, hlt⟩
        exact ⟨hvalue.symm, by rw [← hvalue]; exact (hbound j).mpr hlt⟩
      · rintro ⟨hvalue, hlt⟩
        exact ⟨hvalue.symm, (hbound j).mp (hvalue ▸ hlt)⟩
    | double e =>
      have hvalue : d.toInt = e.toInt := Double.same_iff.mp h
      simp [normal, Matches, exact, isInt, hvalue, ofDouble_congr hvalue]

end Number

/-! ## 2. Values -/

namespace Value

mutual

/-- The values are written alike: their numbers have the same forms, and their fields the same
    order. -/
def Alike : Value → Value → Prop
  | .number m, .number n => m.Alike n
  | .array xs, .array ys => AlikeItems xs ys
  | .object fs, .object gs => AlikeFields fs gs
  | _, _ => True

/-- The items are written alike, place by place. -/
def AlikeItems : List Value → List Value → Prop
  | x :: xs, y :: ys => Alike x y ∧ AlikeItems xs ys
  | _, _ => True

/-- The fields have the same names, place by place, and values written alike. -/
def AlikeFields : List (String × Value) → List (String × Value) → Prop
  | (name, v) :: fs, (name', w) :: gs => name = name' ∧ Alike v w ∧ AlikeFields fs gs
  | _, _ => True

end

mutual

theorem alike_self (v : Value) : v.Alike v := by
  cases v with
  | number n =>
    rw [Alike]
    exact n.alike_self
  | array items =>
    rw [Alike]
    exact alikeItems_self items
  | object fields =>
    rw [Alike]
    exact alikeFields_self fields
  | _ => simp [Alike]

theorem alikeItems_self (items : List Value) : AlikeItems items items := by
  cases items with
  | nil => simp [AlikeItems]
  | cons v items =>
    rw [AlikeItems]
    exact ⟨alike_self v, alikeItems_self items⟩

theorem alikeFields_self (fields : List (String × Value)) : AlikeFields fields fields := by
  cases fields with
  | nil => simp [AlikeFields]
  | cons f fields =>
    obtain ⟨name, v⟩ := f
    rw [AlikeFields]
    exact ⟨rfl, alike_self v, alikeFields_self fields⟩

end

/-- Fields written alike have the same names in the same order. -/
theorem names_eq_of_alikeFields {fs gs : Fields} (hlength : fs.length = gs.length)
    (h : AlikeFields fs gs) : fs.map Prod.fst = gs.map Prod.fst := by
  induction fs generalizing gs with
  | nil => rw [List.eq_nil_of_length_eq_zero hlength.symm]
  | cons f fs ih =>
    cases gs with
    | nil => cases hlength
    | cons g gs =>
      obtain ⟨name, v⟩ := f
      obtain ⟨name', w⟩ := g
      rw [AlikeFields] at h
      rw [List.map_cons, List.map_cons, h.1, ih (Nat.succ.inj hlength) h.2.2]

mutual

/-- **Loosely equal values that are written alike are the same.** -/
theorem eq_of_looseEq_of_alike (a b : Value) (ha : a.Proper) (h : a.looseEq b = true)
    (halike : a.Alike b) : a = b := by
  cases a with
  | null =>
    cases b with
    | null => rfl
    | _ => simp [looseEq] at h
  | bool a =>
    cases b with
    | bool b => rw [show a = b by simpa [looseEq] using h]
    | _ => simp [looseEq] at h
  | number m =>
    cases b with
    | number n =>
      rw [looseEq] at h
      rw [Alike] at halike
      exact congrArg Value.number (Number.eq_of_same_of_alike h halike)
    | _ => simp [looseEq] at h
  | string a =>
    cases b with
    | string b => rw [show a = b by simpa [looseEq] using h]
    | _ => simp [looseEq] at h
  | array xs =>
    cases b with
    | array ys =>
      rw [Proper] at ha
      rw [looseEq] at h
      rw [Alike] at halike
      rw [eq_items xs ys ha h halike]
    | _ => simp [looseEq] at h
  | object fs =>
    cases b with
    | object gs =>
      rw [Proper] at ha
      rw [looseEq, Bool.and_eq_true, beq_iff_eq] at h
      rw [Alike] at halike
      -- the names are the same, so those of the second object are distinct too
      have hnodup : (gs.map Prod.fst).Nodup := names_eq_of_alikeFields h.1 halike ▸ ha.1
      have hget : ∀ g ∈ gs, Fields.get? gs g.1 = some g.2 :=
        fun g hg => get?_of_mem_nodup hnodup (show (g.1, g.2) ∈ gs from hg)
      rw [eq_fields fs gs gs ha.2 h.1 hget h.2 halike]
    | _ => simp [looseEq] at h
termination_by structural a

theorem eq_items (xs ys : List Value) (hxs : ProperItems xs) (h : looseEqItems xs ys = true)
    (halike : AlikeItems xs ys) : xs = ys := by
  cases xs with
  | nil =>
    cases ys with
    | nil => rfl
    | cons y ys => simp [looseEqItems] at h
  | cons x xs =>
    cases ys with
    | nil => simp [looseEqItems] at h
    | cons y ys =>
      rw [ProperItems] at hxs
      rw [looseEqItems, Bool.and_eq_true] at h
      rw [AlikeItems] at halike
      rw [eq_of_looseEq_of_alike x y hxs.1 h.1 halike.1, eq_items xs ys hxs.2 h.2 halike.2]
termination_by structural xs

/-- The fields of the first object are looked up among all of the second. -/
theorem eq_fields (fs gs all : Fields) (hfs : ProperFields fs) (hlength : fs.length = gs.length)
    (hget : ∀ g ∈ gs, Fields.get? all g.1 = some g.2) (h : looseEqFields fs all = true)
    (halike : AlikeFields fs gs) : fs = gs := by
  cases fs with
  | nil => exact (List.eq_nil_of_length_eq_zero hlength.symm).symm
  | cons f fs =>
    cases gs with
    | nil => cases hlength
    | cons g gs =>
      obtain ⟨name, v⟩ := f
      obtain ⟨name', w⟩ := g
      rw [ProperFields] at hfs
      rw [AlikeFields] at halike
      obtain ⟨rfl, hv, hrest⟩ := halike
      obtain ⟨hw, hget⟩ := List.forall_mem_cons.mp hget
      simp only [looseEqFields, hw, Bool.and_eq_true] at h
      rw [eq_of_looseEq_of_alike v w hfs.1 h.1 hv,
        eq_fields fs gs all hfs.2 (Nat.succ.inj hlength) hget h.2 hrest]
termination_by structural fs

end

/-! ## 3. Fingerprints -/

/-- Values are written so that their fingerprints do not tell them apart: numbers that stand alone
    match, and all else is written alike. -/
def SharesForm : Value → Value → Prop
  | .number m, .number n => m.Matches n
  | a, b => a.Alike b

/-- Loosely equal values are the same exactly when they are written alike. -/
theorem eq_iff_alike {a b : Value} (ha : a.Proper) (h : a.looseEq b = true) : a = b ↔ a.Alike b := by
  constructor
  · rintro rfl
    exact alike_self a
  · exact eq_of_looseEq_of_alike a b ha h

/-- **Loosely equal values have one fingerprint exactly when they are written alike.** -/
theorem fingerprint_eq_iff_of_looseEq {a b : Value} (ha : a.Proper) (h : a.looseEq b = true) :
    a.fingerprint = b.fingerprint ↔ a.SharesForm b := by
  rw [fingerprint_eq_iff]
  cases a with
  | number m =>
    cases b with
    | number n =>
      rw [looseEq] at h
      rw [normal, normal, Value.number.injEq, SharesForm]
      exact Number.normal_eq_iff_matches h
    | _ => simp [looseEq] at h
  | _ =>
    cases b with
    | number n => simp [looseEq] at h
    | _ => exact eq_iff_alike ha h

/-- The number three, written with a fraction. -/
def threePointZero : Value := .number (.double (.ofInt 3 (by decide)))

/-- Alone, `3` and `3.0` share a fingerprint; the fields of an object do not change places. -/
theorem three_and_swapped_fields :
    let ab : Value := .object [("a", .null), ("b", .count 3)]
    let ba : Value := .object [("b", .count 3), ("a", .null)]
    (Value.count 3).looseEq threePointZero = true ∧
      (Value.count 3).fingerprint = threePointZero.fingerprint ∧
      ab.looseEq ba = true ∧ ab.fingerprint ≠ ba.fingerprint := by
  intro ab ba
  have hthree : (Value.count 3).looseEq threePointZero = true := by decide +kernel
  have hswapped : ab.looseEq ba = true := by decide +kernel
  have hproper : ab.Proper := by simp [ab, Proper, ProperFields, Value.count]
  have hexact : (Number.ofCount 3).exact = (Number.double (.ofInt 3 (by decide))).exact := by
    decide +kernel
  have hsmall : (Number.ofCount 3).exact.natAbs < 0x8000000000000000 * Double.one := by
    decide +kernel
  refine ⟨hthree, ?_, hswapped, fun heq => ?_⟩
  · exact (fingerprint_eq_iff_of_looseEq (by simp [Value.count, Proper]) hthree).mpr
      ⟨hexact, Or.inr hsmall⟩
  · have halike := (fingerprint_eq_iff_of_looseEq hproper hswapped).mp heq
    simp [ab, ba, SharesForm, Alike, AlikeFields] at halike

/-- In an array `3` and `3.0` are loosely equal and have two fingerprints. -/
theorem listed_three_apart :
    let a : Value := .array [.count 3]
    let b : Value := .array [threePointZero]
    a.Proper ∧ b.Proper ∧ a.looseEq b = true ∧ a.fingerprint ≠ b.fingerprint := by
  intro a b
  refine ⟨by simp [a, Proper, ProperItems, Value.count],
    by simp [b, Proper, ProperItems, threePointZero], by decide +kernel, fun heq => ?_⟩
  rw [fingerprint_eq_iff] at heq
  simp [a, b, normal, Value.count, Number.ofCount, threePointZero] at heq

end Value

end QueryAlgebra
