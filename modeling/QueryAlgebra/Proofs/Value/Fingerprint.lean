import QueryAlgebra.Proofs.Json.Text

/-!
# Fingerprints and loose equality

Two values have one fingerprint when they are the same up to the writing of one number
(`fingerprint_eq_iff`): a double without fraction has the fingerprint of the integer with its value.
So a fingerprint says more than loose equality does: values that share it cannot be told apart by
comparing them with a third (`looseEq_congr_right`), and each is loosely equal to the other
(`looseEq_of_fingerprint_eq`) when its objects have distinct field names.
-/

namespace QueryAlgebra

/-! ## 1. Integral doubles -/

theorem Double.quanta_of_toInteger? {d : Double} {i : { i : Int // i.natAbs < 0x8000000000000000 }}
    (h : d.toInteger? = some i) : i.val = d.integerPart ∧ i.val.natAbs * one = d.quanta := by
  unfold toInteger? at h
  split at h
  · next hint =>
    split at h
    · obtain rfl := Option.some.inj h
      refine ⟨rfl, ?_⟩
      have hmod : d.quanta % one = 0 := by simpa [isIntegral] using hint
      have hdiv : d.quanta / one * one = d.quanta := Nat.div_mul_cancel (Nat.dvd_of_mod_eq_zero hmod)
      have habs : d.integerPart.natAbs = d.quanta / one := by
        unfold integerPart
        generalize d.quanta / one = q
        split <;> omega
      show d.integerPart.natAbs * one = d.quanta
      rw [habs, hdiv]
    · cases h
  · cases h

/-- An integer of at most 53 bits is a double of its own value. -/
theorem Double.toInt_ofInt {i : Int} {h : i.natAbs ≤ 0x10000000000000000}
    (hexact : i.natAbs ≤ 0x20000000000000) : (ofInt i h).toInt = i * one := by
  have hgrid : OnGrid (i.natAbs * one) := by
    have hshift := onGrid_shiftLeft hexact scale
    rwa [Nat.shiftLeft_eq, ← Nat.one_shiftLeft] at hshift
  unfold toInt ofInt
  simp only [roundToGrid_one hgrid, decide_eq_true_eq]
  generalize one = q
  split
  · next hneg =>
    have habs : (i.natAbs : Int) = -i := by omega
    rw [Nat.cast_mul, habs, Int.neg_mul, Int.neg_neg]
  · next hneg =>
    have habs : (i.natAbs : Int) = i := by omega
    rw [Nat.cast_mul, habs]

/-- The integer that a double stands for has its value. -/
theorem Double.toInt_ofInt_of_toInteger? {d : Double}
    {i : { i : Int // i.natAbs < 0x8000000000000000 }} (h : d.toInteger? = some i)
    (hi : i.val.natAbs ≤ 0x10000000000000000) : (ofInt i.val hi).toInt = d.toInt := by
  obtain ⟨hpart, hquanta⟩ := quanta_of_toInteger? h
  have hround : roundToGrid (i.val.natAbs * one) 1 = d.quanta := by
    rw [hquanta, roundToGrid_one d.onGrid]
  have hone := one_pos
  unfold toInt ofInt
  simp only [hround, decide_eq_true_eq]
  unfold integerPart at hpart
  generalize d.quanta / one = q at hpart
  cases hneg : d.negative with
  | false =>
    rw [hneg, if_neg Bool.false_ne_true] at hpart
    rw [if_neg (by omega), if_neg Bool.false_ne_true]
  | true =>
    rw [hneg, if_pos rfl] at hpart
    rw [if_pos rfl]
    split
    · rfl
    · next hpos =>
      have hzero : i.val.natAbs = 0 := by omega
      rw [hzero, Nat.zero_mul] at hquanta
      omega

/-- **Writing integral doubles as integers keeps the value.** -/
theorem Number.toInt_normal (n : Number) : n.normal.toDouble.toInt = n.toDouble.toInt := by
  cases n with
  | int i h => rfl
  | double d =>
    show (Number.ofDouble d).toDouble.toInt = d.toInt
    unfold Number.ofDouble
    split
    · next i h heq => exact Double.toInt_ofInt_of_toInteger? heq (by show i.natAbs ≤ _; omega)
    · rfl

namespace Value

/-! ## 2. Fingerprints -/

/-- A value with a number in its normal form. -/
def normal : Value → Value
  | .number n => .number n.normal
  | v => v

theorem fingerprint_eq_json (v : Value) : v.fingerprint = v.normal.json := by
  cases v with
  | number n => rw [fingerprint, normal, json]
  | _ => rfl

/-- **Values have one fingerprint when they have one normal form.** -/
theorem fingerprint_eq_iff {a b : Value} : a.fingerprint = b.fingerprint ↔ a.normal = b.normal := by
  rw [fingerprint_eq_json, fingerprint_eq_json]
  exact ⟨json_injective, congrArg json⟩

/-- Values with one fingerprint are the same, or numbers of one value. -/
theorem eq_or_same_of_fingerprint_eq {a b : Value} (h : a.fingerprint = b.fingerprint) :
    a = b ∨ ∃ m n, a = .number m ∧ b = .number n ∧ m.toDouble.toInt = n.toDouble.toInt := by
  rw [fingerprint_eq_iff] at h
  cases a with
  | number m =>
    cases b with
    | number n =>
      refine Or.inr ⟨m, n, rfl, rfl, ?_⟩
      rw [← m.toInt_normal, ← n.toInt_normal]
      exact congrArg (fun k => k.toDouble.toInt) (Value.number.inj h)
    | _ => cases h
  | _ =>
    cases b with
    | number n => cases h
    | _ => exact Or.inl h

theorem looseEq_number (k : Value) {m n : Number} (h : m.toDouble.toInt = n.toDouble.toInt) :
    k.looseEq (.number m) = k.looseEq (.number n) := by
  cases k <;> simp [looseEq, Number.same, Double.same, h]

theorem number_looseEq (k : Value) {m n : Number} (h : m.toDouble.toInt = n.toDouble.toInt) :
    looseEq (.number m) k = looseEq (.number n) k := by
  cases k <;> simp [looseEq, Number.same, Double.same, h]

/-- **Values with one fingerprint are not told apart by a comparison.** -/
theorem looseEq_congr_right (k : Value) {a b : Value} (h : a.fingerprint = b.fingerprint) :
    k.looseEq a = k.looseEq b := by
  rcases eq_or_same_of_fingerprint_eq h with rfl | ⟨m, n, rfl, rfl, hval⟩
  · rfl
  · exact looseEq_number k hval

theorem looseEq_congr_left (k : Value) {a b : Value} (h : a.fingerprint = b.fingerprint) :
    a.looseEq k = b.looseEq k := by
  rcases eq_or_same_of_fingerprint_eq h with rfl | ⟨m, n, rfl, rfl, hval⟩
  · rfl
  · exact number_looseEq k hval

/-! ## 3. Distinct field names -/

mutual

/-- Every object in the value has distinct field names. -/
def Proper : Value → Prop
  | .array items => ProperItems items
  | .object fields => (fields.map Prod.fst).Nodup ∧ ProperFields fields
  | _ => True

/-- Every object in the items has distinct field names. -/
def ProperItems : List Value → Prop
  | [] => True
  | v :: rest => Proper v ∧ ProperItems rest

/-- Every object in the values of the fields has distinct field names. -/
def ProperFields : List (String × Value) → Prop
  | [] => True
  | (_, v) :: rest => Proper v ∧ ProperFields rest

end

theorem get?_of_mem_nodup {fields : Fields} (h : (fields.map Prod.fst).Nodup) {name : String}
    {v : Value} (hmem : (name, v) ∈ fields) : fields.get? name = some v := by
  induction fields with
  | nil => cases hmem
  | cons f fields ih =>
    obtain ⟨name₀, v₀⟩ := f
    obtain ⟨hhead, htail⟩ := List.nodup_cons.mp h
    unfold Fields.get?
    rcases List.mem_cons.mp hmem with heq | hmem
    · cases heq
      exact if_pos rfl
    · have hne : name₀ ≠ name := fun heq => hhead (heq ▸ List.mem_map.mpr ⟨_, hmem, rfl⟩)
      rw [if_neg hne]
      exact ih htail hmem

mutual

/-- **A value whose objects have distinct field names is loosely equal to itself.** -/
theorem looseEq_self (v : Value) (h : v.Proper) : v.looseEq v = true := by
  cases v with
  | array items =>
    rw [looseEq]
    exact looseEqItems_self items (by rwa [Proper] at h)
  | object fields =>
    rw [Proper] at h
    rw [looseEq, looseEqFields_self fields fields h.2
      (fun name v hmem => get?_of_mem_nodup h.1 hmem)]
    simp
  | _ => simp [looseEq, Number.same, Double.same]

theorem looseEqItems_self (items : List Value) (h : ProperItems items) :
    looseEqItems items items = true := by
  cases items with
  | nil => rw [looseEqItems]
  | cons v items =>
    rw [ProperItems] at h
    rw [looseEqItems, looseEq_self v h.1, looseEqItems_self items h.2]
    rfl

theorem looseEqFields_self (fields all : Fields) (h : ProperFields fields)
    (hget : ∀ name v, (name, v) ∈ fields → Fields.get? all name = some v) :
    looseEqFields fields all = true := by
  cases fields with
  | nil => rw [looseEqFields]
  | cons f fields =>
    obtain ⟨name, v⟩ := f
    rw [ProperFields] at h
    rw [looseEqFields, hget name v List.mem_cons_self,
      looseEqFields_self fields all h.2 (fun n w hmem => hget n w (List.mem_cons_of_mem _ hmem))]
    simp [looseEq_self v h.1]

end

/-- **Values with one fingerprint are loosely equal.** -/
theorem looseEq_of_fingerprint_eq {a b : Value} (ha : a.Proper) (h : a.fingerprint = b.fingerprint) :
    a.looseEq b = true := by
  rw [← looseEq_congr_right a h]
  exact looseEq_self a ha

end Value

end QueryAlgebra
