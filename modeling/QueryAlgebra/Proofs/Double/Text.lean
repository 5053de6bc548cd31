import QueryAlgebra.Double.Numeral
import QueryAlgebra.Proofs.Double.Shortest

/-!
# The text of a double

The text of a numeral splits into the parts that it was written from, and these have the value of
the numeral. So the text of a double tells its sign and its magnitude, and different doubles have
different texts (`text_injective`).

* `Numeral.written` and `scan_written`: parts put one after another are found again.
* `Decimal.parts`: the parts that a numeral is written from, in positional notation or with an
  exponent.
* `Decimal.toList_render`: they make up its text.
* `Decimal.Writes.strict`, `Decimal.Writes.magnitude`: they follow the strict rule of documents, and
  their value is that of the numeral.
-/

namespace QueryAlgebra

/-! ## 1. Parts of a text -/

section Runs

variable {p : Char → Bool} {run rest : List Char}

/-- A run of characters is taken up to what stops it. -/
theorem takeWhile_run (h : ∀ c ∈ run, p c = true) (hrest : ∀ c, rest.head? = some c → p c = false) :
    (run ++ rest).takeWhile p = run := by
  rw [List.takeWhile_append_of_pos h]
  cases rest with
  | nil => simp
  | cons c rest => simp [hrest c rfl]

theorem dropWhile_run (h : ∀ c ∈ run, p c = true) (hrest : ∀ c, rest.head? = some c → p c = false) :
    (run ++ rest).dropWhile p = rest := by
  rw [List.dropWhile_append_of_pos h]
  cases rest with
  | nil => simp
  | cons c rest => simp [hrest c rfl]

end Runs

namespace Numeral

/-- The parts one after another. -/
def written (n : Numeral) : List Char :=
  n.sign.toList ++ n.whole
    ++ (match n.fraction with
      | none => []
      | some digits => '.' :: digits)
    ++ (match n.exponent with
      | none => []
      | some (sign, digits) => 'e' :: sign.toList ++ digits)

/-- Parts that cannot be taken for one another: digits where digits stand, and a sign before them. -/
structure Plain (n : Numeral) : Prop where
  sign : n.sign = none ∨ n.sign = some '-'
  whole : ∀ c ∈ n.whole, c.isDigit = true
  whole_ne_nil : n.whole ≠ []
  fraction : ∀ digits, n.fraction = some digits → ∀ c ∈ digits, c.isDigit = true
  exponent : ∀ sign digits, n.exponent = some (sign, digits) →
    (sign = some '-' ∨ sign = some '+') ∧ ∀ c ∈ digits, c.isDigit = true

theorem splitSign_digits {digits rest : List Char} (h : ∀ c ∈ digits, c.isDigit = true)
    (hne : digits ≠ []) : splitSign (digits ++ rest) = (none, digits ++ rest) := by
  cases digits with
  | nil => exact absurd rfl hne
  | cons c digits =>
    have hc := h c List.mem_cons_self
    rw [List.cons_append]
    unfold splitSign
    split
    · next heq => cases heq; exact absurd hc (by decide)
    · next heq => cases heq; exact absurd hc (by decide)
    · rfl

theorem splitSign_signed {sign : Option Char} {rest : List Char}
    (hsign : sign = some '-' ∨ sign = some '+') : splitSign (sign.toList ++ rest) = (sign, rest) := by
  rcases hsign with rfl | rfl <;> rfl

/-- What follows the digits before the point. -/
def tail (n : Numeral) : List Char :=
  (match n.fraction with
    | none => []
    | some digits => '.' :: digits)
    ++ (match n.exponent with
      | none => []
      | some (sign, digits) => 'e' :: sign.toList ++ digits)

theorem written_eq (n : Numeral) : n.written = n.sign.toList ++ (n.whole ++ n.tail) := by
  simp [written, tail]

theorem head_tail (n : Numeral) (c : Char) (h : n.tail.head? = some c) : c.isDigit = false := by
  obtain ⟨sign, whole, fraction, exponent⟩ := n
  cases fraction with
  | some digits =>
    simp only [tail, List.cons_append, List.head?_cons, Option.some.injEq] at h
    exact h ▸ by decide
  | none =>
    cases exponent with
    | none => simp [tail] at h
    | some e =>
      simp only [tail, List.nil_append, List.cons_append, List.head?_cons, Option.some.injEq] at h
      exact h ▸ by decide

theorem splitSign_written {n : Numeral} (h : n.Plain) :
    splitSign n.written = (n.sign, n.whole ++ n.tail) := by
  rw [written_eq]
  rcases h.sign with hsign | hsign
  · rw [hsign]
    exact @splitSign_digits n.whole n.tail h.whole h.whole_ne_nil
  · rw [hsign]
    exact splitSign_signed (Or.inl rfl)

/-- **Parts put one after another are found again.** -/
theorem scan_written {n : Numeral} (h : n.Plain) : scan n.written = some n := by
  have hsign := splitSign_written h
  have htake := takeWhile_run h.whole (head_tail n)
  have hdrop := dropWhile_run h.whole (head_tail n)
  obtain ⟨sign, whole, fraction, exponent⟩ := n
  have hexponent : ∀ mark digits, exponent = some (mark, digits) →
      splitSign (mark.toList ++ digits) = (mark, digits) ∧ digits.all Char.isDigit = true := by
    intro mark digits heq
    obtain ⟨hmark, hdigits⟩ := h.exponent mark digits heq
    exact ⟨splitSign_signed hmark, List.all_eq_true.mpr hdigits⟩
  have hfraction : ∀ digits, fraction = some digits → ∀ rest : List Char,
      (∀ c, rest.head? = some c → c.isDigit = false) →
      (digits ++ rest).takeWhile Char.isDigit = digits
        ∧ (digits ++ rest).dropWhile Char.isDigit = rest :=
    fun digits heq rest hrest =>
      ⟨takeWhile_run (h.fraction digits heq) hrest, dropWhile_run (h.fraction digits heq) hrest⟩
  unfold scan
  simp only [hsign, htake, hdrop]
  cases fraction with
  | none =>
    cases exponent with
    | none => rfl
    | some e =>
      obtain ⟨mark, digits⟩ := e
      obtain ⟨hmark, hdigits⟩ := hexponent mark digits rfl
      simp [tail, hmark, hdigits]
  | some part =>
    have hpart := hfraction part rfl
    cases exponent with
    | none =>
      obtain ⟨h1, h2⟩ := hpart [] (by simp)
      simp only [List.append_nil] at h1 h2
      simp [tail, h1, h2]
    | some e =>
      obtain ⟨mark, digits⟩ := e
      obtain ⟨hmark, hdigits⟩ := hexponent mark digits rfl
      obtain ⟨h1, h2⟩ := hpart ('e' :: mark.toList ++ digits) (by simp)
      simp only [List.cons_append] at h1 h2
      simp [tail, h1, h2, hmark, hdigits]

end Numeral

/-! ## 2. The digits of a number -/

theorem digitsValue_append (xs ys : List Char) :
    digitsValue (xs ++ ys)
      = ys.foldl (fun acc c => acc * 10 + (c.toNat - '0'.toNat)) (digitsValue xs) := by
  simp [digitsValue, List.foldl_append]

theorem digitsValue_eq (digits : List Char) : digitsValue digits = Nat.ofDigitChars 10 digits 0 := by
  simp only [digitsValue, Nat.ofDigitChars, Nat.mul_comm]

@[simp] theorem digitsValue_toDigits (n : Nat) : digitsValue (Nat.toDigits 10 n) = n := by
  rw [digitsValue_eq, Nat.ofDigitChars_ten_toDigits]

theorem digitsValue_zeros_append (k : Nat) (digits : List Char) :
    digitsValue (List.replicate k '0' ++ digits) = digitsValue digits := by
  induction k with
  | zero => rfl
  | succ k ih =>
    rw [List.replicate_succ, List.cons_append]
    exact ih

theorem digitsValue_append_zeros (digits : List Char) (k : Nat) :
    digitsValue (digits ++ List.replicate k '0') = digitsValue digits * 10 ^ k := by
  induction k with
  | zero => simp
  | succ k ih =>
    rw [List.replicate_succ', ← List.append_assoc, digitsValue_append, List.foldl_cons, List.foldl_nil,
      ih, pow_succ]
    simp [mul_assoc]

theorem isDigit_of_mem_digits {n : Nat} {c : Char} (h : c ∈ Nat.toDigits 10 n) : c.isDigit = true :=
  Nat.isDigit_of_mem_toDigits (by decide) (by decide) h

/-- The digits of a positive number do not begin with zero. -/
theorem head_toDigits {n : Nat} (h : 0 < n) : (Nat.toDigits 10 n).head? ≠ some '0' := by
  induction n using Nat.strongRecOn with
  | ind n ih =>
    by_cases hsmall : n < 10
    · rw [Nat.toDigits_of_lt_base hsmall]
      interval_cases n <;> decide
    · have hdiv : 0 < n / 10 := Nat.div_pos (by omega) (by decide)
      rw [Nat.toDigits_of_base_le (by decide) (by omega), List.head?_append]
      have hne := Nat.toDigits_ne_nil (b := 10) (n := n / 10)
      have hhead := ih (n / 10) (by omega) hdiv
      cases hd : Nat.toDigits 10 (n / 10) with
      | nil => exact absurd hd hne
      | cons c cs =>
        rw [hd] at hhead
        simpa using hhead

/-! ## 3. The parts of a rendered numeral -/

namespace Decimal

/-- The sign that is written before a numeral. -/
def mark (d : Decimal) : Option Char := if d.negative then some '-' else none

/-- The parts that a numeral is written from. -/
def parts (layout : Layout) (d : Decimal) : Numeral :=
  let digits := Nat.toDigits 10 d.coefficient
  let point : Int := digits.length + d.exponent
  if d.coefficient = 0 then ⟨d.mark, ['0'], some ['0'], none⟩
  else if layout.leastFixed ≤ point - 1 ∧ point - 1 < layout.firstScientific then
    if point ≤ 0 then ⟨d.mark, ['0'], some (List.replicate (-point).toNat '0' ++ digits), none⟩
    else if digits.length ≤ point.toNat then
      ⟨d.mark, digits ++ List.replicate (point.toNat - digits.length) '0', some ['0'], none⟩
    else ⟨d.mark, digits.take point.toNat, some (digits.drop point.toNat), none⟩
  else
    ⟨d.mark, digits.take 1, if digits.drop 1 = [] then none else some (digits.drop 1),
      some (some (if point - 1 < 0 then '-' else '+'), Nat.toDigits 10 (point - 1).natAbs)⟩

/-- The ways in which a numeral is written: zero, below one, as an integer, with the point among its
    digits, and with an exponent. -/
inductive Writes (d : Decimal) : Numeral → Prop
  | zero : d.coefficient = 0 → Writes d ⟨d.mark, ['0'], some ['0'], none⟩
  | small (k : Nat) : 0 < d.coefficient →
      d.exponent = -(k + (Nat.toDigits 10 d.coefficient).length : Nat) →
      Writes d ⟨d.mark, ['0'], some (List.replicate k '0' ++ Nat.toDigits 10 d.coefficient), none⟩
  | large (k : Nat) : 0 < d.coefficient → d.exponent = k →
      Writes d ⟨d.mark, Nat.toDigits 10 d.coefficient ++ List.replicate k '0', some ['0'], none⟩
  | split (whole fraction : List Char) : 0 < d.coefficient → whole ≠ [] → fraction ≠ [] →
      whole ++ fraction = Nat.toDigits 10 d.coefficient → d.exponent = -(fraction.length : Nat) →
      Writes d ⟨d.mark, whole, some fraction, none⟩
  | scientific (c : Char) (rest : List Char) (power : Int) : 0 < d.coefficient →
      c :: rest = Nat.toDigits 10 d.coefficient → power = d.exponent + rest.length →
      Writes d ⟨d.mark, [c], if rest = [] then none else some rest,
        some (some (if power < 0 then '-' else '+'), Nat.toDigits 10 power.natAbs)⟩

theorem writes_parts (layout : Layout) (d : Decimal) : d.Writes (d.parts layout) := by
  have hne := Nat.toDigits_ne_nil (b := 10) (n := d.coefficient)
  have hlen := List.length_pos_iff.mpr hne
  unfold parts
  simp only
  by_cases h0 : d.coefficient = 0
  · rw [if_pos h0]
    exact .zero h0
  rw [if_neg h0]
  by_cases hfixed : layout.leastFixed ≤ (Nat.toDigits 10 d.coefficient).length + d.exponent - 1 ∧
      (Nat.toDigits 10 d.coefficient).length + d.exponent - 1 < layout.firstScientific
  · rw [if_pos hfixed]
    by_cases hpoint : (Nat.toDigits 10 d.coefficient).length + d.exponent ≤ 0
    · rw [if_pos hpoint]
      exact .small _ (by omega) (by omega)
    rw [if_neg hpoint]
    by_cases hwhole : (Nat.toDigits 10 d.coefficient).length
        ≤ ((Nat.toDigits 10 d.coefficient).length + d.exponent).toNat
    · rw [if_pos hwhole]
      exact .large _ (by omega) (by omega)
    rw [if_neg hwhole]
    refine .split _ _ (by omega) ?_ ?_ (List.take_append_drop _ _) ?_
    · rw [← List.length_pos_iff, List.length_take]
      omega
    · rw [← List.length_pos_iff, List.length_drop]
      omega
    · rw [List.length_drop]
      omega
  · rw [if_neg hfixed]
    obtain ⟨c, rest, hdigits⟩ := List.exists_cons_of_ne_nil hne
    rw [hdigits]
    exact .scientific c rest _ (by omega) hdigits.symm (by rw [List.length_cons]; omega)

theorem toList_toString (n : Nat) : (toString n).toList = Nat.toDigits 10 n := Nat.toList_repr

theorem toList_positional (digits : List Char) (point : Int) (sign : Option Char) :
    sign.toList ++ (positional digits point).toList
      = (if point ≤ 0 then
          ⟨sign, ['0'], some (List.replicate (-point).toNat '0' ++ digits), none⟩
        else if digits.length ≤ point.toNat then
          ⟨sign, digits ++ List.replicate (point.toNat - digits.length) '0', some ['0'], none⟩
        else ⟨sign, digits.take point.toNat, some (digits.drop point.toNat), none⟩ : Numeral).written := by
  unfold positional
  split_ifs <;> simp [Numeral.written, zeros]

theorem toList_scientific (digits : List Char) (power : Int) (sign : Option Char) :
    sign.toList ++ (scientific digits power).toList
      = (⟨sign, digits.take 1, if digits.drop 1 = [] then none else some (digits.drop 1),
          some (some (if power < 0 then '-' else '+'), Nat.toDigits 10 power.natAbs)⟩ : Numeral).written := by
  unfold scientific
  cases hrest : digits.drop 1 <;> by_cases hsign : power < 0 <;>
    simp [Numeral.written, hsign]

/-- **The text of a numeral is made of its parts.** -/
theorem toList_render (layout : Layout) (d : Decimal) :
    (d.render layout).toList = (d.parts layout).written := by
  have hmark : ∀ body : String,
      (if d.negative then "-" ++ body else body).toList = d.mark.toList ++ body.toList := by
    intro body
    unfold mark
    split <;> simp
  unfold render parts
  simp only [hmark, toList_toString]
  by_cases h0 : d.coefficient = 0
  · rw [if_pos h0, if_pos h0]
    simp [Numeral.written]
  rw [if_neg h0, if_neg h0]
  by_cases hfixed : layout.leastFixed ≤ (Nat.toDigits 10 d.coefficient).length + d.exponent - 1 ∧
      (Nat.toDigits 10 d.coefficient).length + d.exponent - 1 < layout.firstScientific
  · rw [if_pos hfixed, if_pos hfixed]
    exact toList_positional _ _ _
  · rw [if_neg hfixed, if_neg hfixed]
    exact toList_scientific _ _ _

theorem mark_eq (d : Decimal) : d.mark = none ∨ d.mark = some '-' := by
  unfold mark
  split
  · exact Or.inr rfl
  · exact Or.inl rfl

theorem Writes.sign {d : Decimal} {n : Numeral} (h : d.Writes n) : n.sign = d.mark := by
  cases h <;> rfl

theorem Writes.plain {d : Decimal} {n : Numeral} (h : d.Writes n) : n.Plain := by
  have hdigits : ∀ c ∈ Nat.toDigits 10 d.coefficient, c.isDigit = true :=
    fun c hc => isDigit_of_mem_digits hc
  have hzeros : ∀ k, ∀ c ∈ List.replicate k '0', c.isDigit = true :=
    fun k c hc => List.eq_of_mem_replicate hc ▸ by decide
  have hsign : n.sign = none ∨ n.sign = some '-' := h.sign ▸ d.mark_eq
  cases h with
  | zero h0 => exact ⟨hsign, by simp, by simp, by simp, by simp⟩
  | small k h0 hexp =>
    refine ⟨hsign, by simp, by simp, ?_, by simp⟩
    rintro digits heq c hc
    cases heq
    rcases List.mem_append.mp hc with hc | hc
    · exact hzeros k c hc
    · exact hdigits c hc
  | large k h0 hexp =>
    refine ⟨hsign, ?_, by simp, by simp, by simp⟩
    intro c hc
    rcases List.mem_append.mp hc with hc | hc
    · exact hdigits c hc
    · exact hzeros k c hc
  | split whole fraction h0 hwhole hfraction heq hexp =>
    rw [← heq] at hdigits
    refine ⟨hsign, fun c hc => hdigits c (List.mem_append_left _ hc), hwhole, ?_, by simp⟩
    rintro digits hd c hc
    cases hd
    exact hdigits c (List.mem_append_right _ hc)
  | scientific c rest power h0 heq hpower =>
    rw [← heq] at hdigits
    refine ⟨hsign, ?_, by simp, ?_, ?_⟩
    · intro x hx
      rw [List.mem_singleton.mp hx]
      exact hdigits c List.mem_cons_self
    · rintro digits hd x hx
      simp only at hd
      split_ifs at hd with hrest
      cases hd
      exact hdigits x (List.mem_cons_of_mem c hx)
    · rintro sign digits hd
      cases hd
      refine ⟨?_, fun x hx => isDigit_of_mem_digits hx⟩
      split
      · exact Or.inl rfl
      · exact Or.inr rfl

theorem Writes.not_isInteger {d : Decimal} {n : Numeral} (h : d.Writes n) : n.isInteger = false := by
  cases h with
  | scientific => exact Bool.and_false _
  | _ => rfl

/-- **The parts of a numeral follow the strict rule.** -/
theorem Writes.strict {d : Decimal} {n : Numeral} (h : d.Writes n) : n.strict = true := by
  have hsign : n.sign ≠ some '+' := by
    rw [h.sign]
    rcases d.mark_eq with hm | hm <;> rw [hm] <;> decide
  have hhead : ∀ rest, 0 < d.coefficient → Nat.toDigits 10 d.coefficient = '0' :: rest → False :=
    fun rest h0 heq => head_toDigits h0 (by rw [heq]; rfl)
  unfold Numeral.strict
  cases h with
  | zero h0 => simp_all [Numeral.exponentComplete]
  | small k h0 hexp =>
    have hne := Nat.toDigits_ne_nil (b := 10) (n := d.coefficient)
    simp_all [Numeral.exponentComplete]
  | large k h0 hexp =>
    have hne := Nat.toDigits_ne_nil (b := 10) (n := d.coefficient)
    obtain ⟨c, cs, hdigits⟩ := List.exists_cons_of_ne_nil hne
    have hc : c ≠ '0' := fun hc => hhead cs h0 (hc ▸ hdigits)
    simp_all [Numeral.exponentComplete]
  | split whole fraction h0 hwhole hfraction heq hexp =>
    obtain ⟨c, cs, rfl⟩ := List.exists_cons_of_ne_nil hwhole
    have hc : c ≠ '0' := fun hc => hhead (cs ++ fraction) h0 (by rw [← heq, hc]; rfl)
    simp_all [Numeral.exponentComplete]
  | scientific c rest power h0 heq hpower =>
    have hne := Nat.toDigits_ne_nil (b := 10) (n := power.natAbs)
    have hfraction : (if rest = [] then none else some rest) ≠ some [] := by
      split <;> simp_all
    simp_all [Numeral.exponentComplete]

/-- **The parts of a numeral have its value.** -/
theorem Writes.magnitude {d : Decimal} {n : Numeral} (h : d.Writes n) :
    n.decimal.magnitude = d.magnitude := by
  have hvalue := digitsValue_toDigits d.coefficient
  unfold Decimal.magnitude
  cases h with
  | zero h0 =>
    have : digitsValue ['0', '0'] = 0 := by decide
    simp [Numeral.decimal, this, h0, Double.magnitude]
  | small k h0 hexp =>
    simp only [Numeral.decimal, Option.getD_some, List.singleton_append, ← List.replicate_succ,
      ← List.cons_append, digitsValue_zeros_append, hvalue, List.length_append, List.length_replicate]
    rw [hexp]
    congr 1
    omega
  | large k h0 hexp =>
    have hdigits : digitsValue (Nat.toDigits 10 d.coefficient ++ List.replicate k '0' ++ ['0'])
        = d.coefficient * 10 ^ (k + 1) := by
      rw [List.append_assoc, ← List.replicate_succ', digitsValue_append_zeros, hvalue]
    simp only [Numeral.decimal, Option.getD_some, hdigits, Double.magnitude, hexp]
    push_cast
    rw [pow_succ, zpow_natCast, mul_assoc (d.coefficient : ℚ), mul_assoc]
    norm_num
  | split whole fraction h0 hwhole hfraction heq hexp =>
    simp only [Numeral.decimal, Option.getD_some, heq, hvalue]
    rw [hexp]
    congr 1
    omega
  | scientific c rest power h0 heq hpower =>
    have hfraction : (if rest = [] then none else some rest : Option (List Char)).getD [] = rest := by
      split <;> simp_all
    simp only [Numeral.decimal, hfraction, List.singleton_append, heq, hvalue, digitsValue_toDigits]
    congr 1
    by_cases hs : power < 0
    · simp only [hs, if_true]
      omega
    · simp only [hs, if_false, Option.some.injEq, Char.reduceEq]
      omega

end Decimal

/-! ## 4. Texts of doubles -/

namespace Double

/-- The parts that the text of a double is made of. -/
def parts (d : Double) : Numeral := d.shortest.parts Layout.document

theorem toList_text (d : Double) : d.text.toList = d.parts.written := Decimal.toList_render _ _

theorem scan_text (d : Double) : Numeral.scan d.text.toList = some d.parts := by
  rw [toList_text]
  exact Numeral.scan_written (Decimal.writes_parts _ _).plain

/-- Doubles of one sign and one magnitude are equal. -/
theorem eq_of_quanta {a b : Double} (hnegative : a.negative = b.negative)
    (hquanta : a.quanta = b.quanta) : a = b := by
  obtain ⟨an, aq, _, _⟩ := a
  obtain ⟨bn, bq, _, _⟩ := b
  simp only at hquanta hnegative
  subst hquanta hnegative
  rfl

/-- **Different doubles have different texts.** -/
theorem text_injective {a b : Double} (h : a.text = b.text) : a = b := by
  have hparts : a.parts = b.parts := by
    have := scan_text a
    rw [h, scan_text b] at this
    exact (Option.some.inj this).symm
  have ha := Decimal.writes_parts Layout.document a.shortest
  have hb := Decimal.writes_parts Layout.document b.shortest
  have hquanta : a.quanta = b.quanta := by
    refine quanta_eq_of_shortest_magnitude ?_
    rw [← ha.magnitude, ← hb.magnitude]
    exact congrArg (fun n => n.decimal.magnitude) hparts
  have hnegative : a.negative = b.negative := by
    have hmark : a.shortest.mark = b.shortest.mark := by
      rw [← ha.sign, ← hb.sign]
      exact congrArg Numeral.sign hparts
    unfold Decimal.mark at hmark
    rw [shortest_negative, shortest_negative] at hmark
    revert hmark
    cases a.negative <;> cases b.negative <;> simp
  exact eq_of_quanta hnegative hquanta

end Double

end QueryAlgebra
