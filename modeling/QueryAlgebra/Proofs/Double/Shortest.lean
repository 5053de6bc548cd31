import Mathlib
import QueryAlgebra.Double.Decimal

/-!
# The shortest numeral identifies the double

The numeral that is written for a double lies in the interval of values that read back as it, and
the intervals of different doubles do not meet.

* `numeralOfSize_seventeen`: on the grid of seventeen digits one of the two neighbours of a
  magnitude is always in its interval, so the search ends with a numeral.
* `shortest_covers`: the numeral is in the interval.
* `eq_of_covers`: a value in the intervals of two magnitudes shows that they are equal. Where two
  intervals touch, one of them is open: of two neighbouring doubles only one has an even
  significand.
* `quanta_eq_of_shortest_magnitude`: doubles whose numerals have one value have one magnitude.
-/

namespace QueryAlgebra

namespace Double

/-! ## 1. Spacing -/

theorem spacing_eq (n : Nat) : spacing n = 2 ^ (n.log2 - 52) := Nat.one_shiftLeft _

theorem spacing_dvd {n : Nat} (h : OnGrid n) : spacing n ∣ n := Nat.dvd_of_mod_eq_zero h

theorem spacing_le {n : Nat} (h : 0 < n) : spacing n ≤ n := by
  rw [spacing_eq]
  exact (Nat.pow_le_pow_right (by decide) (by omega)).trans (Nat.log2_self_le (by omega))

/-- The magnitude has at most 53 bits above its spacing. -/
theorem lt_spacing_mul (n : Nat) : n < 2 ^ 53 * spacing n := by
  rw [spacing_eq, ← pow_add]
  exact Nat.lt_log2_self.trans_le (Nat.pow_le_pow_right (by decide) (by omega))

theorem add_le_of_dvd {d a b : Nat} (ha : d ∣ a) (hb : d ∣ b) (h : a < b) : a + d ≤ b := by
  obtain ⟨x, rfl⟩ := ha
  obtain ⟨y, rfl⟩ := hb
  have hxy : x + 1 ≤ y := lt_of_mul_lt_mul_left h (Nat.zero_le d)
  calc d * x + d = d * (x + 1) := by ring
    _ ≤ d * y := Nat.mul_le_mul_left d hxy

/-- The next magnitude on the grid is at most the next power of two. -/
theorem add_spacing_le_pow {n : Nat} (h : OnGrid n) : n + spacing n ≤ 2 ^ (n.log2 + 1) := by
  refine add_le_of_dvd (spacing_dvd h) ?_ Nat.lt_log2_self
  rw [spacing_eq]
  exact Nat.pow_dvd_pow 2 (by omega)

/-! ## 2. Intervals -/

/-- Whether a value, in quarters of a quantum, lies in an interval. -/
def Interval.Covers (i : Interval) (q : ℚ) : Prop :=
  if i.closed then (i.low : ℚ) ≤ q ∧ q ≤ i.high else (i.low : ℚ) < q ∧ q < i.high

theorem Interval.holds_iff (i : Interval) (num : Nat) {den : Nat} (h : 0 < den) :
    i.holds num den = true ↔ i.Covers (num / den) := by
  have hden : (0 : ℚ) < den := by exact_mod_cast h
  unfold Interval.holds Interval.Covers
  cases i.closed <;>
    simp [le_div_iff₀ hden, div_le_iff₀ hden, lt_div_iff₀ hden, div_lt_iff₀ hden] <;> norm_cast

theorem Interval.Covers.low_le {i : Interval} {q : ℚ} (h : i.Covers q) : (i.low : ℚ) ≤ q := by
  unfold Interval.Covers at h
  split at h
  · exact h.1
  · exact h.1.le

theorem Interval.Covers.le_high {i : Interval} {q : ℚ} (h : i.Covers q) : q ≤ i.high := by
  unfold Interval.Covers at h
  split at h
  · exact h.2
  · exact h.2.le

theorem Interval.covers_of_lt {i : Interval} {q : ℚ} (hlow : (i.low : ℚ) < q) (hhigh : q < i.high) :
    i.Covers q := by
  unfold Interval.Covers
  split
  · exact ⟨hlow.le, hhigh.le⟩
  · exact ⟨hlow, hhigh⟩

/-- Two intervals that follow each other share a value only when both are closed. -/
theorem Interval.Covers.closed_of_touch {i j : Interval} {q : ℚ} (hi : i.Covers q)
    (hj : j.Covers q) (h : i.high ≤ j.low) :
    i.high = j.low ∧ i.closed = true ∧ j.closed = true := by
  have hq : (i.high : ℚ) ≤ j.low := by exact_mod_cast h
  have hle : (j.low : ℚ) ≤ i.high := hj.low_le.trans hi.le_high
  refine ⟨by exact_mod_cast le_antisymm hq hle, ?_, ?_⟩
  · by_contra hc
    simp only [Interval.Covers, hc] at hi
    exact absurd (hi.2.trans_le (hq.trans hj.low_le)) (lt_irrefl q)
  · by_contra hc
    simp only [Interval.Covers, hc] at hj
    exact absurd ((hi.le_high.trans hq).trans_lt hj.1) (lt_irrefl q)

/-- Whether the significand of a magnitude is even. -/
def EvenSignificand (n : Nat) : Prop := n / spacing n % 2 = 0

theorem interval_closed (n : Nat) : (interval n).closed = true ↔ EvenSignificand n := by
  simp [interval, EvenSignificand]

/-- Of a magnitude and its neighbour at the same spacing only one has an even significand. -/
theorem not_even_of_add_spacing {m n : Nat} (hs : spacing n = spacing m) (h : n = m + spacing m)
    (hm : EvenSignificand m) : ¬EvenSignificand n := by
  unfold EvenSignificand at *
  rw [hs, h, Nat.add_div_right _ (spacing_pos m)]
  omega

/-- The neighbour below a power of two has an odd significand. -/
theorem not_even_below_pow {m : Nat} (h52 : 52 ≤ m.log2)
    (h : m + spacing m = 2 ^ (m.log2 + 1)) : ¬EvenSignificand m := by
  have hpow : 2 ^ (m.log2 + 1) = 2 ^ 53 * spacing m := by
    rw [spacing_eq, ← pow_add]
    congr 1
    omega
  have hm : (2 ^ 53 - 1) * spacing m = m := by
    rw [Nat.sub_mul, ← hpow, ← h]
    omega
  have hdiv : m / spacing m = 2 ^ 53 - 1 := Nat.div_eq_of_eq_mul_left (spacing_pos m) hm.symm
  unfold EvenSignificand
  rw [hdiv]
  decide

/-- The lower end of the interval of a power of two is half as far as that of other magnitudes. -/
theorem interval_low (n : Nat) :
    (interval n).low
      = 4 * n - if n = 2 ^ n.log2 ∧ 52 < n.log2 then spacing n else 2 * spacing n := by
  simp only [interval, Nat.one_shiftLeft]

theorem interval_high (n : Nat) : (interval n).high = 4 * n + 2 * spacing n := rfl

/-- The interval of `m` ends before that of `n` begins, or where it begins, and one is open. -/
def Precedes (m n : Nat) : Prop :=
  (interval m).high ≤ (interval n).low ∧
    ((interval m).high = (interval n).low → ¬(EvenSignificand m ∧ EvenSignificand n))

theorem precedes_of_spacing_eq {m n : Nat} (hm : OnGrid m) (hn : OnGrid n) (h : m < n)
    (hs : spacing n = spacing m) (hpow : ¬(n = 2 ^ n.log2 ∧ 52 < n.log2)) : Precedes m n := by
  have hnext : m + spacing m ≤ n := add_le_of_dvd (spacing_dvd hm) (hs ▸ spacing_dvd hn) h
  unfold Precedes
  rw [interval_high, interval_low, if_neg hpow, hs]
  refine ⟨by omega, fun heq => ?_⟩
  have hn' : n = m + spacing m := by omega
  exact fun heven => not_even_of_add_spacing hs hn' heven.1 heven.2

theorem precedes_pow {m n : Nat} (hm : OnGrid m) (hlt : m.log2 < n.log2)
    (hpow : n = 2 ^ n.log2 ∧ 52 < n.log2) : Precedes m n := by
  have hnext := add_spacing_le_pow hm
  unfold Precedes
  rw [interval_high, interval_low, if_pos hpow]
  rcases Nat.lt_or_ge (m.log2 + 1) n.log2 with hfar | hnear
  · have htwice : 2 * 2 ^ (m.log2 + 1) ≤ 2 ^ n.log2 := by
      rw [← pow_succ']
      exact Nat.pow_le_pow_right (by decide) hfar
    have hsn : spacing n ≤ n := spacing_le (hpow.1 ▸ Nat.two_pow_pos _)
    have := spacing_pos m
    exact ⟨by omega, fun heq => absurd heq (by omega)⟩
  · have hk : n.log2 = m.log2 + 1 := by omega
    have hsn : spacing n = 2 * spacing m := by
      rw [spacing_eq, spacing_eq, hk, ← pow_succ']
      congr 1
      omega
    rw [← hk] at hnext
    refine ⟨by omega, fun heq heven => ?_⟩
    exact not_even_below_pow (by omega) (by rw [← hk]; omega) heven.1

theorem precedes_above_pow {m n : Nat} (hm : OnGrid m) (hn : OnGrid n) (hlt : m.log2 < n.log2)
    (h52 : 52 < n.log2) (hpow : n ≠ 2 ^ n.log2) : Precedes m n := by
  have hnext := add_spacing_le_pow hm
  have hmn : 2 ^ (m.log2 + 1) ≤ 2 ^ n.log2 := Nat.pow_le_pow_right (by decide) hlt
  have hn0 : n ≠ 0 := fun h0 => by rw [h0, Nat.log2_zero] at h52; omega
  have habove : 2 ^ n.log2 + spacing n ≤ n := by
    refine add_le_of_dvd ?_ (spacing_dvd hn) (lt_of_le_of_ne (Nat.log2_self_le hn0) hpow.symm)
    rw [spacing_eq]
    exact Nat.pow_dvd_pow 2 (by omega)
  have := spacing_pos n
  unfold Precedes
  rw [interval_high, interval_low, if_neg (fun h => hpow h.1)]
  exact ⟨by omega, fun heq => absurd heq (by omega)⟩

/-- **The intervals of two magnitudes follow each other.** -/
theorem precedes_of_lt {m n : Nat} (hm : OnGrid m) (hn : OnGrid n) (hpos : 0 < m) (h : m < n) :
    Precedes m n := by
  have hlog : m.log2 ≤ n.log2 := by
    rw [Nat.le_log2 (by omega)]
    exact (Nat.log2_self_le (by omega)).trans h.le
  rcases Nat.lt_or_ge m.log2 n.log2 with hlt | hge
  · rcases Nat.lt_or_ge 52 n.log2 with h52 | h52
    · by_cases hpow : n = 2 ^ n.log2
      · exact precedes_pow hm hlt ⟨hpow, h52⟩
      · exact precedes_above_pow hm hn hlt h52 hpow
    · have hs : spacing n = spacing m := by
        rw [spacing_eq, spacing_eq]
        congr 1
        omega
      exact precedes_of_spacing_eq hm hn h hs (by omega)
  · have hk : n.log2 = m.log2 := by omega
    have hs : spacing n = spacing m := by rw [spacing_eq, spacing_eq, hk]
    refine precedes_of_spacing_eq hm hn h hs (fun hpow => ?_)
    have hself := Nat.log2_self_le (n := m) (by omega)
    rw [hk] at hpow
    omega

/-- **A value in the intervals of two magnitudes shows that they are equal.** -/
theorem eq_of_covers {m n : Nat} (hm : OnGrid m) (hn : OnGrid n) (hm0 : 0 < m) (hn0 : 0 < n)
    {q : ℚ} (hqm : (interval m).Covers q) (hqn : (interval n).Covers q) : m = n := by
  rcases Nat.lt_trichotomy m n with h | h | h
  · obtain ⟨hle, hopen⟩ := precedes_of_lt hm hn hm0 h
    obtain ⟨heq, hcm, hcn⟩ := hqm.closed_of_touch hqn hle
    exact absurd ⟨(interval_closed m).mp hcm, (interval_closed n).mp hcn⟩ (hopen heq)
  · exact h
  · obtain ⟨hle, hopen⟩ := precedes_of_lt hn hm hn0 h
    obtain ⟨heq, hcn, hcm⟩ := hqn.closed_of_touch hqm hle
    exact absurd ⟨(interval_closed n).mp hcn, (interval_closed m).mp hcm⟩ (hopen heq)

/-! ## 3. Numerals on a decimal grid -/

/-- The magnitude that a coefficient and a power of ten stand for. -/
def magnitude (c : Nat) (p : Int) : ℚ := c * 10 ^ p

/-- The magnitude in quarters of a quantum, as the search computes it. -/
theorem magnitude_eq_div (c : Nat) (p : Int) :
    ((4 * c * (one * tenTo p.toNat) : Nat) : ℚ) / (tenTo (-p).toNat : Nat)
      = 4 * one * magnitude c p := by
  have hten : (10 : ℚ) ≠ 0 := by norm_num
  have hp : (10 : ℚ) ^ p * 10 ^ (-p).toNat = 10 ^ p.toNat := by
    rw [← zpow_natCast, ← zpow_natCast, ← zpow_add₀ hten]
    congr 1
    omega
  have hdown : (10 : ℚ) ^ (-p).toNat ≠ 0 := pow_ne_zero _ hten
  unfold magnitude tenTo
  simp only [Nat.pow_eq]
  push_cast
  rw [div_eq_iff hdown, mul_assoc (4 * (one : ℚ)), mul_assoc (c : ℚ), hp]
  ring

theorem tenTo_pos (k : Nat) : 0 < tenTo k := Nat.pow_pos (by decide)

theorem numeralOfSize_covers {n digits c : Nat} {p : Int}
    (h : numeralOfSize n digits = some (c, p)) :
    (interval n).Covers (4 * one * magnitude c p) := by
  rw [← magnitude_eq_div, ← Interval.holds_iff _ _ (tenTo_pos _)]
  unfold numeralOfSize at h
  simp only at h
  split at h
  · cases h
  · next hlow hhigh =>
    cases h
    exact hlow
  · next hlow hhigh =>
    cases h
    exact hhigh
  · next hlow hhigh =>
    split at h
    · cases h
      exact hlow
    · cases h
      exact hhigh

theorem tenTo_digitCount_le (steps : Nat) {n : Nat} (h : 0 < n) :
    10 ^ (digitCountWithin steps n - 1) ≤ n := by
  induction steps generalizing n with
  | zero => simpa [digitCountWithin] using Nat.succ_le_of_lt h
  | succ steps ih =>
    unfold digitCountWithin
    split
    · simpa using Nat.succ_le_of_lt h
    · have hdiv : 0 < n / 10 := Nat.div_pos (by omega) (by decide)
      have hcount : 0 < digitCountWithin steps (n / 10) := by
        cases steps with
        | zero => exact Nat.one_pos
        | succ steps => unfold digitCountWithin; split <;> omega
      calc 10 ^ (digitCountWithin steps (n / 10) + 1 - 1)
          = 10 ^ (digitCountWithin steps (n / 10) - 1) * 10 := by rw [← pow_succ]; congr 1; omega
        _ ≤ n / 10 * 10 := Nat.mul_le_mul_right 10 (ih hdiv)
        _ ≤ n := Nat.div_mul_le_self n 10

/-- The decimal exponent does not lie above the magnitude. -/
theorem decimalExponent_le {n : Nat} (h : 0 < n) : (10 : ℚ) ^ decimalExponent n * one ≤ n := by
  have hone : (0 : ℚ) < one := by exact_mod_cast one_pos
  have hten : one ≤ tenTo 400 := by decide +kernel
  have hpos : 0 < n * tenTo 400 / one :=
    Nat.div_pos (hten.trans (Nat.le_mul_of_pos_left _ h)) one_pos
  have hle := tenTo_digitCount_le (n * tenTo 400 / one).log2 hpos
  have hcount : 0 < digitCount (n * tenTo 400 / one) := by
    unfold digitCount
    cases (n * tenTo 400 / one).log2 with
    | zero => exact Nat.one_pos
    | succ steps => unfold digitCountWithin; split <;> omega
  have hscaled : 10 ^ (digitCount (n * tenTo 400 / one) - 1) * one ≤ n * tenTo 400 :=
    (Nat.mul_le_mul_right one hle).trans (Nat.div_mul_le_self _ _)
  have hexp : decimalExponent n = (digitCount (n * tenTo 400 / one) - 1 : Nat) - (400 : Nat) := by
    unfold decimalExponent
    omega
  generalize 400 = k at hscaled hexp
  have hcast : (10 : ℚ) ^ (digitCount (n * tenTo k / one) - 1) * one ≤ n * 10 ^ k := by
    exact_mod_cast hscaled
  rw [hexp, zpow_sub₀ (by norm_num), zpow_natCast, zpow_natCast, div_mul_eq_mul_div,
    div_le_iff₀ (by positivity)]
  exact hcast

/-- The interval of a magnitude is wider than any step that goes into it `10^16` times. -/
theorem step_lt_width {n : Nat} (h : 0 < n) {g : ℚ} (hg : g * 10 ^ 16 ≤ n) :
    4 * g < (interval n).high - (interval n).low := by
  have hs := spacing_le h
  have hlt : (n : ℚ) < 2 ^ 53 * spacing n := by exact_mod_cast lt_spacing_mul n
  have hspos : (0 : ℚ) < spacing n := by exact_mod_cast spacing_pos n
  rw [interval_high, interval_low]
  split
  · next hpow =>
    have heq : n = 2 ^ 52 * spacing n := by
      rw [spacing_eq, ← pow_add]
      conv_lhs => rw [hpow.1]
      congr 1
      omega
    have heq' : (n : ℚ) = 2 ^ 52 * spacing n := by exact_mod_cast heq
    rw [Nat.cast_sub (by omega)]
    push_cast
    linarith
  · rw [Nat.cast_sub (by omega)]
    push_cast
    linarith

/-- Of two neighbours around a magnitude, on a grid that fine, one is in its interval. -/
theorem covers_or_covers {n : Nat} (h : 0 < n) {x g : ℚ} (hx : x ≤ n) (hy : (n : ℚ) < x + g)
    (hg : g * 10 ^ 16 ≤ n) :
    (interval n).Covers (4 * x) ∨ (interval n).Covers (4 * (x + g)) := by
  have hs := spacing_le h
  have hspos := spacing_pos n
  have hhigh : 4 * (n : ℚ) < (interval n).high := by
    rw [interval_high]
    exact_mod_cast (by omega : 4 * n < 4 * n + 2 * spacing n)
  have hlow : ((interval n).low : ℚ) < 4 * n := by
    rw [interval_low]
    exact_mod_cast (by split <;> omega : 4 * n - _ < 4 * n)
  by_cases hin : ((interval n).low : ℚ) < 4 * x
  · exact Or.inl (Interval.covers_of_lt hin (by linarith))
  · have hwidth := step_lt_width h hg
    exact Or.inr (Interval.covers_of_lt (by linarith) (by linarith))

/-- Whether a numeral goes beyond a magnitude, in the whole numbers that the search compares. -/
theorem magnitude_le_iff (n c : Nat) (p : Int) :
    one * magnitude c p ≤ n ↔ c * (one * tenTo p.toNat) ≤ n * tenTo (-p).toNat := by
  have hup : (0 : ℚ) < (tenTo (-p).toNat : Nat) := by exact_mod_cast tenTo_pos _
  have hq := magnitude_eq_div c p
  rw [div_eq_iff hup.ne'] at hq
  have hcast : ((c * (one * tenTo p.toNat) : Nat) : ℚ)
      = one * magnitude c p * (tenTo (-p).toNat : Nat) := by
    push_cast at hq ⊢
    linarith
  rw [← Nat.cast_le (α := ℚ), hcast, Nat.cast_mul]
  exact (mul_le_mul_iff_of_pos_right hup).symm

/-- **Seventeen digits are enough:** on their grid one of the two neighbours of a magnitude is in
    its interval. -/
theorem numeralOfSize_seventeen {n : Nat} (h : 0 < n) : ∃ x, numeralOfSize n 17 = some x := by
  obtain ⟨p, hp⟩ : ∃ p, p = decimalExponent n - (17 : Nat) + 1 := ⟨_, rfl⟩
  obtain ⟨c, hc⟩ : ∃ c, c = n * tenTo (-p).toNat / (one * tenTo p.toNat) := ⟨_, rfl⟩
  have hup := tenTo_pos (-p).toNat
  have hden : 0 < one * tenTo p.toNat := Nat.mul_pos one_pos (tenTo_pos _)
  have hbelow : one * magnitude c p ≤ n := by
    rw [magnitude_le_iff, hc]
    exact Nat.div_mul_le_self _ _
  have habove : (n : ℚ) < one * magnitude (c + 1) p := by
    rw [← not_le, magnitude_le_iff, hc, Nat.add_one_mul, not_le]
    exact Nat.lt_div_mul_add hden
  have hstep : one * (10 : ℚ) ^ p * 10 ^ 16 ≤ n := by
    have hle := decimalExponent_le h
    have hexp : decimalExponent n = p + (16 : Nat) := by omega
    rw [hexp, zpow_add₀ (by norm_num), zpow_natCast] at hle
    linarith
  have hsucc : one * magnitude (c + 1) p = one * magnitude c p + one * (10 : ℚ) ^ p := by
    unfold magnitude
    push_cast
    ring
  have hnear : (interval n).holds (4 * c * (one * tenTo p.toNat)) (tenTo (-p).toNat) = true ∨
      (interval n).holds (4 * (c + 1) * (one * tenTo p.toNat)) (tenTo (-p).toNat) = true := by
    rw [Interval.holds_iff _ _ hup, Interval.holds_iff _ _ hup, magnitude_eq_div, magnitude_eq_div,
      mul_assoc, mul_assoc, hsucc]
    exact covers_or_covers h hbelow (hsucc ▸ habove) hstep
  unfold numeralOfSize
  simp only [← hp, ← hc]
  rcases hnear with hlow | hhigh
  · rw [hlow]
    split <;> simp_all
    split <;> simp
  · rw [hhigh]
    split <;> simp_all
    split <;> simp

/-! ## 4. The shortest numeral -/

theorem magnitude_stripZeros (steps : Nat) (c : Nat) (p : Int) :
    magnitude (stripZeros steps (c, p)).1 (stripZeros steps (c, p)).2 = magnitude c p := by
  induction steps generalizing c p with
  | zero => rfl
  | succ steps ih =>
    unfold stripZeros
    split
    · next hzero =>
      rw [ih]
      have hc : (c : ℚ) = (c / 10 : Nat) * 10 := by
        exact_mod_cast (Nat.div_mul_cancel (Nat.dvd_of_mod_eq_zero hzero)).symm
      unfold magnitude
      rw [hc, zpow_add_one₀ (by norm_num)]
      ring
    · rfl

end Double

/-- The magnitude that a numeral stands for. -/
def Decimal.magnitude (d : Decimal) : ℚ := Double.magnitude d.coefficient d.exponent

namespace Double

@[simp] theorem shortest_negative (d : Double) : d.shortest.negative = d.negative := by
  unfold shortest
  split
  · rfl
  · split <;> rfl

/-- **The numeral of a double is in the interval of its magnitude.** -/
theorem shortest_covers {d : Double} (h : 0 < d.quanta) :
    (interval d.quanta).Covers (4 * one * d.shortest.magnitude) := by
  obtain ⟨x, hx⟩ := numeralOfSize_seventeen h
  obtain ⟨y, hy⟩ :
      ∃ y, (List.range 17).findSome? (fun k => numeralOfSize d.quanta (k + 1)) = some y := by
    rw [← Option.isSome_iff_exists, List.findSome?_isSome_iff]
    exact ⟨16, by simp, by rw [hx]; rfl⟩
  obtain ⟨k, -, hk⟩ := List.exists_of_findSome?_eq_some hy
  have hcovers := numeralOfSize_covers (c := y.1) (p := y.2) hk
  unfold shortest Decimal.magnitude
  rw [if_neg (by omega), hy]
  simp only
  rwa [magnitude_stripZeros]

/-- A double other than zero has a numeral other than zero. -/
theorem shortest_magnitude_eq_zero {d : Double} : d.shortest.magnitude = 0 ↔ d.quanta = 0 := by
  constructor
  · intro hzero
    by_contra hne
    have hpos : 0 < d.quanta := by omega
    have hlow := (shortest_covers hpos).low_le
    have hs := spacing_le hpos
    rw [hzero, mul_zero, interval_low] at hlow
    have : (4 * d.quanta - if d.quanta = 2 ^ d.quanta.log2 ∧ 52 < d.quanta.log2
        then spacing d.quanta else 2 * spacing d.quanta) ≤ 0 := by exact_mod_cast hlow
    split at this <;> omega
  · intro hzero
    unfold shortest Decimal.magnitude
    rw [if_pos hzero]
    simp [magnitude]

/-- **Doubles whose numerals stand for one magnitude have it as their own.** -/
theorem quanta_eq_of_shortest_magnitude {a b : Double}
    (h : a.shortest.magnitude = b.shortest.magnitude) : a.quanta = b.quanta := by
  rcases Nat.eq_zero_or_pos a.quanta with ha | ha
  · rw [ha]
    exact (shortest_magnitude_eq_zero.mp (h ▸ shortest_magnitude_eq_zero.mpr ha)).symm
  · have hb : 0 < b.quanta := by
      refine Nat.pos_of_ne_zero (fun hb => ?_)
      have := shortest_magnitude_eq_zero.mp (h.trans (shortest_magnitude_eq_zero.mpr hb))
      omega
    exact eq_of_covers a.onGrid b.onGrid ha hb (shortest_covers ha) (h ▸ shortest_covers hb)

end Double

end QueryAlgebra
