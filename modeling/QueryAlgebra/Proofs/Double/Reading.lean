import QueryAlgebra.Proofs.Double.Text

/-!
# The text of a double is read

The reader of documents takes the digits that fit into 64 bits and scales them by a power of ten, with
a rounding in each step, so the text of a double can be read as a double beside it. But it is always
read: neither rounding leaves the finite doubles.

* `roundToGrid_mono`: a larger quotient does not round to a smaller magnitude.
* `Numeral.leading_le`: what the reader takes of a numeral does not exceed it.
* `Double.scaleByTen_isSome`: a value up to the `crest`, where the largest double begins to be the
  nearest, is scaled to a finite double. Rounding is monotone, so this is decided at the largest
  coefficient of each power of ten.
* `Double.toDouble_parts`: the text of every double is read. That of the largest one spells a value
  above the crest, and is read by itself.
-/

namespace QueryAlgebra

namespace Double

/-! ## 1. Rounding is monotone -/

theorem div_le_div_of_cross {num den num' den' : Nat} (hden : 0 < den) (hden' : 0 < den')
    (h : num * den' ≤ num' * den) : num / den ≤ num' / den' := by
  rw [Nat.le_div_iff_mul_le hden']
  refine Nat.le_of_mul_le_mul_right ?_ hden
  calc num / den * den' * den = num / den * den * den' := by ring
    _ ≤ num * den' := Nat.mul_le_mul_right _ (Nat.div_mul_le_self num den)
    _ ≤ num' * den := h

theorem le_roundDiv (num den : Nat) : num / den ≤ roundDiv num den := by
  unfold roundDiv
  split <;> omega

theorem roundDiv_mono {num den num' den' : Nat} (hden : 0 < den) (hden' : 0 < den')
    (h : num * den' ≤ num' * den) : roundDiv num den ≤ roundDiv num' den' := by
  have hdiv := div_le_div_of_cross hden hden' h
  rcases Nat.lt_or_eq_of_le hdiv with hlt | heq
  · exact (roundDiv_le num den).trans (hlt.trans_le (le_roundDiv num' den'))
  · have hrest : num % den * den' ≤ num' % den' * den := by
      rw [← Nat.div_add_mod num den, ← Nat.div_add_mod num' den', ← heq, add_mul, add_mul] at h
      have hcommon : den * (num / den) * den' = den' * (num / den) * den := by ring
      omega
    have hdown : 2 * (num' % den') < den' ∨ (2 * (num' % den') = den' ∧ num' / den' % 2 = 0) →
        2 * (num % den) < den ∨ (2 * (num % den) = den ∧ num / den % 2 = 0) := by
      intro hcond
      rcases hcond with hless | ⟨htie, heven⟩
      · refine Or.inl (Nat.lt_of_mul_lt_mul_right (a := den') ?_)
        calc 2 * (num % den) * den' ≤ 2 * (num' % den') * den := by nlinarith
          _ < den' * den := Nat.mul_lt_mul_of_pos_right hless hden
          _ = den * den' := Nat.mul_comm _ _
      · have hle : 2 * (num % den) ≤ den := by
          refine Nat.le_of_mul_le_mul_right (c := den') ?_ hden'
          calc 2 * (num % den) * den' ≤ 2 * (num' % den') * den := by nlinarith
            _ = den * den' := by rw [htie, Nat.mul_comm]
        rw [heq]
        omega
    unfold roundDiv
    by_cases hcond : 2 * (num' % den') < den' ∨ (2 * (num' % den') = den' ∧ num' / den' % 2 = 0)
    · rw [if_pos hcond, if_pos (hdown hcond)]
      exact hdiv
    · rw [if_neg hcond]
      split <;> omega

theorem pow_le_roundToGrid {num den : Nat} (h52 : 52 ≤ (num / den).log2) :
    2 ^ (num / den).log2 ≤ roundToGrid num den := by
  have hne : num / den ≠ 0 := by
    intro h0
    rw [h0, Nat.log2_zero] at h52
    omega
  have hself : 2 ^ (num / den).log2 ≤ num / den := Nat.log2_self_le hne
  have hspacing : 2 ^ (num / den).log2 = 2 ^ 52 * spacing (num / den) := by
    rw [spacing_eq, ← pow_add]
    congr 1
    omega
  have hquot : 2 ^ 52 ≤ num / (den * spacing (num / den)) := by
    rw [← Nat.div_div_eq_div_mul, Nat.le_div_iff_mul_le (spacing_pos _), ← hspacing]
    exact hself
  calc 2 ^ (num / den).log2 = 2 ^ 52 * spacing (num / den) := hspacing
    _ ≤ roundToGrid num den := Nat.mul_le_mul_right _ (hquot.trans (le_roundDiv _ _))

/-- **Rounding is monotone:** a larger quotient does not round to a smaller magnitude. -/
theorem roundToGrid_mono {num den num' den' : Nat} (hden : 0 < den) (hden' : 0 < den')
    (h : num * den' ≤ num' * den) : roundToGrid num den ≤ roundToGrid num' den' := by
  have hdiv := div_le_div_of_cross hden hden' h
  have hlog : (num / den).log2 ≤ (num' / den').log2 := by
    by_cases hzero : num / den = 0
    · rw [hzero, Nat.log2_zero]
      exact Nat.zero_le _
    · rw [Nat.le_log2 ((Nat.pos_of_ne_zero hzero).trans_le hdiv).ne']
      exact (Nat.log2_self_le hzero).trans hdiv
  by_cases hsame : spacing (num / den) = spacing (num' / den')
  · unfold roundToGrid
    rw [hsame]
    refine Nat.mul_le_mul_right _ (roundDiv_mono (Nat.mul_pos hden (spacing_pos _))
      (Nat.mul_pos hden' (spacing_pos _)) ?_)
    calc num * (den' * spacing (num' / den')) = num * den' * spacing (num' / den') := by ring
      _ ≤ num' * den * spacing (num' / den') := Nat.mul_le_mul_right _ h
      _ = num' * (den * spacing (num' / den')) := by ring
  · -- The spacings differ, so a power of two lies between the quotients.
    have hfar : (num / den).log2 < (num' / den').log2 ∧ 52 < (num' / den').log2 := by
      rw [spacing_eq, spacing_eq] at hsame
      have hexp : (num / den).log2 - 52 ≠ (num' / den').log2 - 52 := fun heq => hsame (by rw [heq])
      omega
    have hbelow : num / den < 1 <<< (num' / den').log2 := by
      rw [Nat.one_shiftLeft]
      exact Nat.lt_log2_self.trans_le (Nat.pow_le_pow_right (by decide) hfar.1)
    calc roundToGrid num den ≤ 1 <<< (num' / den').log2 := roundToGrid_le hfar.2 hbelow
      _ = 2 ^ (num' / den').log2 := Nat.one_shiftLeft _
      _ ≤ roundToGrid num' den' := pow_le_roundToGrid hfar.2.le

/-! ## 2. Digits -/

end Double

theorem mul_pow_le_foldl (n : Nat) (digits : List Char) :
    n * 10 ^ digits.length
      ≤ digits.foldl (fun acc c => acc * 10 + (c.toNat - '0'.toNat)) n := by
  induction digits generalizing n with
  | nil => simp
  | cons c rest ih =>
    calc n * 10 ^ (c :: rest).length = n * 10 * 10 ^ rest.length := by
          rw [List.length_cons, pow_succ]
          ring
      _ ≤ (n * 10 + (c.toNat - '0'.toNat)) * 10 ^ rest.length :=
          Nat.mul_le_mul_right _ (Nat.le_add_right _ _)
      _ ≤ _ := ih _

/-- The digits that are taken, with a zero for each that is not, do not exceed what is written. -/
theorem takeDigits_le (n : Nat) (digits : List Char) :
    (takeDigits n digits).1 * 10 ^ (takeDigits n digits).2.length
      ≤ digits.foldl (fun acc c => acc * 10 + (c.toNat - '0'.toNat)) n := by
  induction digits generalizing n with
  | nil => simp [takeDigits]
  | cons c rest ih =>
    unfold takeDigits
    simp only
    split
    · exact ih _
    · exact mul_pow_le_foldl n (c :: rest)

theorem length_takeDigits_le (n : Nat) (digits : List Char) :
    (takeDigits n digits).2.length ≤ digits.length := by
  induction digits generalizing n with
  | nil => simp [takeDigits]
  | cons c rest ih =>
    unfold takeDigits
    simp only
    split
    · exact (ih _).trans (Nat.le_succ _)
    · exact Nat.le_refl _

/-- Digits that fit into 64 bits are all taken. -/
theorem takeDigits_of_lt {n : Nat} {digits : List Char}
    (h : digits.foldl (fun acc c => acc * 10 + (c.toNat - '0'.toNat)) n < 0x10000000000000000) :
    takeDigits n digits
      = (digits.foldl (fun acc c => acc * 10 + (c.toNat - '0'.toNat)) n, []) := by
  induction digits generalizing n with
  | nil => rfl
  | cons c rest ih =>
    have hnext : n * 10 + (c.toNat - '0'.toNat) < 0x10000000000000000 := by
      refine lt_of_le_of_lt ?_ h
      exact (Nat.le_mul_of_pos_right _ (Nat.pow_pos (by decide))).trans (mul_pow_le_foldl _ rest)
    unfold takeDigits
    simp only
    rw [if_pos hnext]
    exact ih h

theorem digitsValue_lt {digits : List Char} (h : ∀ c ∈ digits, c.isDigit = true) :
    digitsValue digits < 10 ^ digits.length := by
  induction digits using List.reverseRecOn with
  | nil => simp [digitsValue]
  | append_singleton digits c ih =>
    have hc : c.toNat - '0'.toNat < 10 := by
      have := h c (by simp)
      simp [Char.isDigit, UInt32.le_iff_toNat_le] at this
      have hval : c.toNat = c.val.toNat := rfl
      have : '0'.toNat = 48 := rfl
      omega
    have hinit := ih (fun x hx => h x (List.mem_append_left _ hx))
    rw [digitsValue_append, List.foldl_cons, List.foldl_nil, List.length_append, List.length_singleton,
      pow_succ]
    omega

/-- **What the reader takes of a numeral does not exceed it,** when the digits before the point fit
    into 64 bits. -/
theorem Numeral.leading_le {n : Numeral} (h : digitsValue n.whole < 0x10000000000000000) :
    Double.magnitude n.leading.1.1 n.leading.2 ≤ n.decimal.magnitude := by
  have hwhole : takeDigits 0 n.whole = (digitsValue n.whole, []) := takeDigits_of_lt h
  have hall := takeDigits_le (digitsValue n.whole) (n.fraction.getD [])
  have hlength := length_takeDigits_le (digitsValue n.whole) (n.fraction.getD [])
  rw [← digitsValue_append] at hall
  unfold leading decimal Decimal.magnitude Double.magnitude
  simp only [hwhole, List.length_nil]
  generalize takeDigits (digitsValue n.whole) (n.fraction.getD []) = all at hall hlength ⊢
  generalize n.fraction.getD [] = fraction at hall hlength ⊢
  have hcast : (all.1 : ℚ) * 10 ^ all.2.length ≤ (digitsValue (n.whole ++ fraction) : Nat) := by
    exact_mod_cast hall
  have hscaled : ∀ power : Int,
      (all.1 : ℚ) * 10 ^ (((0 : Nat) : Int) - ((fraction.length - all.2.length : Nat) : Int) + power)
        ≤ (digitsValue (n.whole ++ fraction) : Nat) * 10 ^ (power - (fraction.length : Nat)) := by
    intro power
    have hsplit : ((0 : Nat) : Int) - ((fraction.length - all.2.length : Nat) : Int) + power
        = (all.2.length : Nat) + (power - (fraction.length : Nat)) := by omega
    rw [hsplit, zpow_add₀ (by norm_num), zpow_natCast, ← mul_assoc]
    exact mul_le_mul_of_nonneg_right hcast (zpow_nonneg (by norm_num) _)
  exact hscaled _

namespace Double

/-! ## 3. Scaling -/

/-- Up to where the largest double begins to be the nearest. -/
def crest : Nat := (2 ^ 54 - 3) * 2 ^ 970

/-- Where the crest lies among the powers of ten, and that the last of them is rounded to a double. -/
theorem crest_between : roundToGrid (tenTo 308 * one) 1 < bound ∧
    0xFFFFFFFFFFFFFFFF ≤ crest / tenTo 288 ∧ crest < tenTo 309 := by decide +kernel

theorem tenTo_le {j k : Nat} (h : j ≤ k) : tenTo j ≤ tenTo k := Nat.pow_le_pow_right (by decide) h

theorem onGrid_one : OnGrid one := by
  have h := onGrid_shiftLeft (r := 1) (by decide) scale
  exact h

theorem nearest_isSome {negative : Bool} {num den : Nat} (h : roundToGrid num den < bound) :
    (nearest negative num den).isSome = true := by
  unfold nearest
  rw [dif_pos h]
  rfl

theorem ofTenTo_lt {k : Nat} (h : k ≤ 308) : roundToGrid (tenTo k * one) 1 < bound := by
  have hmul : tenTo k * one * 1 ≤ tenTo 308 * one * 1 :=
    Nat.mul_le_mul_right 1 (Nat.mul_le_mul_right one (tenTo_le h))
  exact lt_of_le_of_lt (roundToGrid_mono Nat.one_pos Nat.one_pos hmul) crest_between.1

theorem exists_ofTenTo {k : Nat} (h : k ≤ 308) :
    ∃ t, ofTenTo k = some t ∧ t.quanta = roundToGrid (tenTo k * one) 1 :=
  ⟨⟨false, _, onGrid_roundToGrid _ _, ofTenTo_lt h⟩, dif_pos (ofTenTo_lt h), rfl⟩

/-- Division by a power of ten stays finite. -/
theorem div_isSome (d : Double) {k : Nat} {t : Double}
    (ht : t.quanta = roundToGrid (tenTo k * one) 1) : (d.div t).isSome = true := by
  have hone : one ≤ t.quanta := by
    rw [ht]
    refine (roundToGrid_one onGrid_one).ge.trans ?_
    refine roundToGrid_mono Nat.one_pos Nat.one_pos (Nat.mul_le_mul_right 1 ?_)
    exact Nat.le_mul_of_pos_left _ (tenTo_pos k)
  refine nearest_isSome (lt_of_le_of_lt ?_ d.finite)
  calc roundToGrid (d.quanta * one) t.quanta ≤ roundToGrid d.quanta 1 := by
        refine roundToGrid_mono (one_pos.trans_le hone) Nat.one_pos ?_
        rw [Nat.mul_one]
        exact Nat.mul_le_mul_left _ hone
    _ = d.quanta := roundToGrid_one d.onGrid

theorem shrink_isSome (steps : Nat) (d : Double) (k : Nat) : (shrink steps d k).isSome = true := by
  induction steps generalizing d k with
  | zero => rfl
  | succ steps ih =>
    by_cases hk : k ≤ 308
    · obtain ⟨t, ht, hquanta⟩ := exists_ofTenTo hk
      rw [shrink, if_pos hk, ht, Option.bind_eq_bind, Option.bind_some]
      exact div_isSome d hquanta
    · by_cases hzero : d.isZero = true
      · rw [shrink, if_neg hk, if_pos hzero]
        rfl
      · obtain ⟨t, ht, hquanta⟩ := exists_ofTenTo (Nat.le_refl 308)
        obtain ⟨q, hq⟩ := Option.isSome_iff_exists.mp (div_isSome d hquanta)
        rw [shrink, if_neg hk, if_neg hzero, ht, Option.bind_eq_bind, Option.bind_some, hq,
          Option.bind_some]
        exact ih q (k - 308)

/-- The largest product of each power of ten above the first `288`; below these, 64 bits are too few
    to come near the limit. -/
theorem largest_product_lt : ∀ j < 21,
    roundToGrid (roundToGrid (min 0xFFFFFFFFFFFFFFFF (crest / tenTo (288 + j)) * one) 1
      * roundToGrid (tenTo (288 + j) * one) 1) one < bound := by decide +kernel

theorem product_lt {m p : Nat} (hm : m < 0x10000000000000000) (hp : p ≤ 308)
    (h : m * tenTo p ≤ crest) :
    roundToGrid (roundToGrid (m * one) 1 * roundToGrid (tenTo p * one) 1) one < bound := by
  have hmin : m ≤ min 0xFFFFFFFFFFFFFFFF (crest / tenTo (288 + (p - 288))) := by
    refine le_min (by omega) ?_
    by_cases hsmall : p < 288
    · have hroom : 0xFFFFFFFFFFFFFFFF ≤ crest / tenTo 288 := crest_between.2.1
      rw [show 288 + (p - 288) = 288 by omega]
      omega
    · rw [show 288 + (p - 288) = p by omega, Nat.le_div_iff_mul_le (tenTo_pos p)]
      exact h
  have hten : tenTo p ≤ tenTo (288 + (p - 288)) := tenTo_le (by omega)
  refine lt_of_le_of_lt ?_ (largest_product_lt (p - 288) (by omega))
  refine roundToGrid_mono one_pos one_pos (Nat.mul_le_mul_right one (Nat.mul_le_mul ?_ ?_))
  · exact roundToGrid_mono Nat.one_pos Nat.one_pos
      (Nat.mul_le_mul_right 1 (Nat.mul_le_mul_right one hmin))
  · exact roundToGrid_mono Nat.one_pos Nat.one_pos
      (Nat.mul_le_mul_right 1 (Nat.mul_le_mul_right one hten))

/-- **Scaling stays finite** up to where the largest double begins. -/
theorem scaleByTen_isSome {m : Nat} (hm : m < 0x10000000000000000)
    (hbits : (m : Int).natAbs ≤ 0x10000000000000000) {power : Int}
    (h : magnitude m power ≤ crest) : ((ofInt m hbits).scaleByTen power).isSome = true := by
  have hquanta : (ofInt m hbits).quanta = roundToGrid (m * one) 1 := by
    unfold ofInt
    simp only [Int.natAbs_natCast]
  generalize ofInt m hbits = d at hquanta ⊢
  by_cases hneg : power < 0
  · rw [scaleByTen, if_pos hneg]
    exact shrink_isSome _ _ _
  obtain ⟨p, rfl⟩ := Int.eq_ofNat_of_zero_le (not_lt.mp hneg)
  have hproduct : m * tenTo p ≤ crest := by
    unfold magnitude at h
    rw [zpow_natCast] at h
    exact_mod_cast h
  by_cases hp : (p : Int) ≤ 308
  · obtain ⟨t, ht, htquanta⟩ := exists_ofTenTo (k := p) (by omega)
    rw [scaleByTen, if_neg hneg, if_pos hp, Int.toNat_natCast, ht, Option.bind_eq_bind,
      Option.bind_some, mul, hquanta, htquanta]
    exact nearest_isSome (product_lt hm (by omega) hproduct)
  · have hzero : m = 0 := by
      by_contra hne
      have hbig : crest < tenTo 309 := crest_between.2.2
      have hten : tenTo 309 ≤ tenTo p := tenTo_le (by omega)
      have hm1 : tenTo p ≤ m * tenTo p := Nat.le_mul_of_pos_left _ (Nat.pos_of_ne_zero hne)
      exact absurd (hten.trans (hm1.trans hproduct)) (not_le.mpr hbig)
    have hd : d.isZero = true := by
      rw [hzero] at hquanta
      simp [isZero, hquanta, roundToGrid, roundDiv, spacing_pos]
    rw [scaleByTen, if_neg hneg, if_neg hp, if_pos hd]
    rfl

end Double

/-- **A numeral is read as a double** when its value does not exceed the crest, and the digits
    before its point fit into 64 bits. -/
theorem Numeral.toDouble_isSome {n : Numeral} (hwhole : digitsValue n.whole < 0x10000000000000000)
    (h : n.decimal.magnitude ≤ Double.crest) : n.toDouble.isSome = true := by
  have hleading := (leading_le hwhole).trans h
  unfold toDouble
  generalize n.leading = leading at hleading ⊢
  obtain ⟨⟨m, hm⟩, power⟩ := leading
  obtain ⟨d, hd⟩ := Option.isSome_iff_exists.mp
    (Double.scaleByTen_isSome hm (by omega) hleading)
  simp only [hd]
  rfl

/-! ## 4. The texts of doubles -/

/-- In a document at most sixteen digits stand before the point. -/
theorem Decimal.length_whole_le (d : Decimal) : (d.parts Layout.document).whole.length ≤ 16 := by
  have hfirst : Layout.document.firstScientific = 16 := rfl
  unfold parts
  simp only [hfirst]
  split_ifs <;> simp only [List.length_append, List.length_replicate, List.length_take,
    List.length_singleton] <;> omega

theorem Decimal.whole_lt (d : Decimal) :
    digitsValue (d.parts Layout.document).whole < 0x10000000000000000 := by
  have hdigits := (d.writes_parts Layout.document).plain.whole
  calc digitsValue (d.parts Layout.document).whole
      < 10 ^ (d.parts Layout.document).whole.length := digitsValue_lt hdigits
    _ ≤ 10 ^ 16 := Nat.pow_le_pow_right (by decide) d.length_whole_le
    _ < 0x10000000000000000 := by decide

namespace Double

/-- The magnitude of the largest double. -/
def largest : Nat := (2 ^ 53 - 1) * 2 ^ (scale + 971)

/-- The largest double is one, fills its binade up to one spacing, and begins to be the nearest at the
    crest. -/
theorem largest_exact : OnGrid largest ∧ largest < bound ∧ 2 ^ (scale + 1023) ≤ largest ∧
    largest + 2 ^ (scale + 971) = 2 ^ (scale + 1023 + 1) ∧
      (interval largest).low = 4 * one * crest := by decide +kernel

theorem onGrid_largest : OnGrid largest := largest_exact.1

theorem largest_lt : largest < bound := largest_exact.2.1

/-- **No double is larger.** -/
theorem quanta_le_largest (d : Double) : d.quanta ≤ largest := by
  obtain ⟨-, -, hhalf, hlargest, -⟩ := largest_exact
  have hnext := add_spacing_le_pow d.onGrid
  have hlog : d.quanta.log2 < scale + 1024 := by
    by_cases hzero : d.quanta = 0
    · rw [hzero, Nat.log2_zero]
      exact Nat.succ_pos _
    · rw [Nat.log2_lt hzero, ← Nat.one_shiftLeft]
      exact d.finite
  by_cases htop : d.quanta.log2 = scale + 1023
  · have hspacing : spacing d.quanta = 2 ^ (scale + 971) := by
      rw [spacing_eq, htop, Nat.add_sub_assoc (by decide)]
    rw [hspacing, htop, ← hlargest] at hnext
    exact Nat.le_of_add_le_add_right hnext
  · have hpow : 2 ^ (d.quanta.log2 + 1) ≤ 2 ^ (scale + 1023) :=
      Nat.pow_le_pow_right (by decide) (by omega)
    exact (Nat.le_add_right _ _).trans (hnext.trans (hpow.trans hhalf))

/-- The numeral of every other double lies below the crest. -/
theorem shortest_magnitude_le {d : Double} (h : d.quanta < largest) :
    d.shortest.magnitude ≤ crest := by
  rcases Nat.eq_zero_or_pos d.quanta with hzero | hpos
  · rw [shortest_magnitude_eq_zero.mpr hzero]
    exact Nat.cast_nonneg crest
  · have hlow : (interval largest).low = 4 * one * crest := largest_exact.2.2.2.2
    have hhigh : (interval d.quanta).high ≤ 4 * one * crest :=
      hlow ▸ (precedes_of_lt d.onGrid onGrid_largest hpos h).1
    have hcovers : 4 * one * d.shortest.magnitude ≤ 4 * one * crest :=
      (shortest_covers hpos).le_high.trans (by exact_mod_cast hhigh)
    have hone : (0 : ℚ) < 4 * one := by
      have : (0 : ℚ) < one := by exact_mod_cast one_pos
      linarith
    exact le_of_mul_le_mul_left hcovers hone

theorem toDouble_parts_largest (negative : Bool) :
    (parts ⟨negative, largest, onGrid_largest, largest_lt⟩).toDouble.isSome = true := by
  cases negative <;> decide +kernel

/-- **The text of every double is read,** as a double near it. -/
theorem toDouble_parts (d : Double) : d.parts.toDouble.isSome = true := by
  rcases Nat.lt_or_eq_of_le d.quanta_le_largest with hlt | heq
  · refine Numeral.toDouble_isSome (Decimal.whole_lt _) ?_
    rw [parts, (Decimal.writes_parts Layout.document d.shortest).magnitude]
    exact shortest_magnitude_le hlt
  · have hd : d = ⟨d.negative, largest, onGrid_largest, largest_lt⟩ := eq_of_quanta rfl heq
    rw [hd]
    exact toDouble_parts_largest d.negative

end Double

end QueryAlgebra
