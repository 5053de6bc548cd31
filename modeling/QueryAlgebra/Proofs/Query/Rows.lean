import QueryAlgebra.Proofs.Json.Text
import QueryAlgebra.Proofs.Outcome

/-!
# Operations on lists of rows

What the operations on whole lists do to lists of rows, where a row is an object: tests and
projections succeed row by row, cutting twice is cutting once, and a test may be made before or
after repeated rows are dropped, since rows with one fingerprint are equal.
-/

namespace QueryAlgebra

/-! ## 1. Cutting -/

/-- A count that is read as a signed and as an unsigned word cuts a list of fewer than `2^63` items
    at the same place. -/
theorem take_truncate {α : Type} (d : Double) {items : List α}
    (h : items.length < 0x8000000000000000) :
    items.take d.truncate.toNat = items.take d.toWord := by
  unfold Double.truncate Double.clamp Double.toWord
  rcases Nat.lt_or_ge d.integerPart.toNat 0x8000000000000000 with hlt | hge
  · congr 1
    omega
  · rw [List.take_of_length_le (by omega), List.take_of_length_le (by omega)]

/-! ## 2. Tests -/

/-- A test whose answers are known keeps the items for which the answer is yes. -/
theorem filterM_eq_ok {α : Type} {test : α → Except Error Bool} {answer : α → Bool}
    {items out : List α} (h : ∀ a ∈ items, ∀ b, test a = .ok b → answer a = b)
    (hout : items.filterM test = .ok out) : out = items.filter answer := by
  induction items generalizing out with
  | nil =>
    rw [filterM_nil] at hout
    exact (pure_eq_ok.mp hout).symm
  | cons a items ih =>
    rw [filterM_cons] at hout
    obtain ⟨b, hb, hout⟩ := bind_eq_ok.mp hout
    obtain ⟨rest, hrest, hout⟩ := bind_eq_ok.mp hout
    obtain rfl := pure_eq_ok.mp hout
    obtain ⟨ha, hitems⟩ := List.forall_mem_cons.mp h
    rw [List.filter_cons, ha b hb, ih hitems hrest]

/-! ## 3. Rows -/

/-- A list of objects. -/
def AllObjects (rows : List Value) : Prop := ∀ row ∈ rows, ∃ fields, row = .object fields

namespace Value

theorem distinctFrom_subset (seen : List String) (rows : List Value) :
    ∀ row ∈ distinctFrom seen rows, row ∈ rows := by
  induction rows generalizing seen with
  | nil => exact fun row hrow => by cases hrow
  | cons v rows ih =>
    intro row hrow
    unfold distinctFrom at hrow
    split at hrow
    · exact List.mem_cons_of_mem v (ih seen row hrow)
    · rcases List.mem_cons.mp hrow with rfl | hrow
      · exact List.mem_cons_self
      · exact List.mem_cons_of_mem v (ih _ row hrow)

/-- What is left has the fingerprints of before, except those that had been seen. -/
theorem mem_distinctFrom (seen : List String) (rows : List Value) (p : String) :
    p ∈ (distinctFrom seen rows).map fingerprint ↔ p ∈ rows.map fingerprint ∧ p ∉ seen := by
  induction rows generalizing seen with
  | nil => simp [distinctFrom]
  | cons v rows ih =>
    unfold distinctFrom
    by_cases hseen : v.fingerprint ∈ seen
    · rw [if_pos hseen, ih, List.map_cons, List.mem_cons]
      constructor
      · exact fun h => ⟨Or.inr h.1, h.2⟩
      · rintro ⟨rfl | h, hp⟩
        · exact absurd hseen hp
        · exact ⟨h, hp⟩
    · rw [if_neg hseen, List.map_cons, List.map_cons, List.mem_cons, List.mem_cons, ih]
      by_cases hp : p = v.fingerprint
      · simp [hp, hseen]
      · simp [hp]

/-- **Each is left where its fingerprint comes first.** -/
theorem pairwise_distinctFrom (seen : List String) (rows : List Value) :
    ((distinctFrom seen rows).map fingerprint).Pairwise (fun p q =>
      (rows.map fingerprint).idxOf p < (rows.map fingerprint).idxOf q) := by
  induction rows generalizing seen with
  | nil => exact List.Pairwise.nil
  | cons v rows ih =>
    -- Fingerprints behind the first row that are not its own come one place later.
    have hlater : ∀ seen', v.fingerprint ∈ seen' →
        ((distinctFrom seen' rows).map fingerprint).Pairwise (fun p q =>
          ((v :: rows).map fingerprint).idxOf p < ((v :: rows).map fingerprint).idxOf q) := by
      intro seen' hv
      refine (ih seen').imp_of_mem fun {p q} hp hq hlt => ?_
      have hne : ∀ r ∈ (distinctFrom seen' rows).map fingerprint, v.fingerprint ≠ r := by
        rintro r hr rfl
        exact ((mem_distinctFrom seen' rows _).mp hr).2 hv
      rw [List.map_cons, List.idxOf_cons_ne _ (hne p hp), List.idxOf_cons_ne _ (hne q hq)]
      exact Nat.succ_lt_succ hlt
    unfold distinctFrom
    split
    · next hseen => exact hlater seen hseen
    · refine List.pairwise_cons.mpr ⟨fun q hq => ?_, hlater _ List.mem_cons_self⟩
      have hne : v.fingerprint ≠ q := by
        rintro rfl
        exact ((mem_distinctFrom _ rows _).mp hq).2 List.mem_cons_self
      rw [List.map_cons, List.idxOf_cons_self, List.idxOf_cons_ne _ hne]
      exact Nat.succ_pos _

theorem length_distinctFrom_le (seen : List String) (rows : List Value) :
    (distinctFrom seen rows).length ≤ rows.length := by
  induction rows generalizing seen with
  | nil => exact Nat.le_refl 0
  | cons v rows ih =>
    unfold distinctFrom
    split
    · exact (ih seen).trans (Nat.le_succ _)
    · exact Nat.succ_le_succ (ih _)

/-- **A test may be made before or after repeated items are dropped,** when items with one
    fingerprint pass it together. What has been seen may differ by items that do not pass. -/
theorem distinctFrom_filter {p : Value → Bool} {rows : List Value} {seen seen' : List String}
    (hp : ∀ a ∈ rows, ∀ b ∈ rows, a.fingerprint = b.fingerprint → p a = p b)
    (hseen : ∀ a ∈ rows, p a = true → (a.fingerprint ∈ seen ↔ a.fingerprint ∈ seen')) :
    distinctFrom seen' (rows.filter p) = (distinctFrom seen rows).filter p := by
  induction rows generalizing seen seen' with
  | nil => rfl
  | cons v rows ih =>
    have hp' : ∀ a ∈ rows, ∀ b ∈ rows, a.fingerprint = b.fingerprint → p a = p b :=
      fun a ha b hb => hp a (List.mem_cons_of_mem v ha) b (List.mem_cons_of_mem v hb)
    have hrest : ∀ a ∈ rows, p a = true → (a.fingerprint ∈ seen ↔ a.fingerprint ∈ seen') :=
      fun a ha => hseen a (List.mem_cons_of_mem v ha)
    cases hv : p v with
    | true =>
      have hmem := hseen v List.mem_cons_self hv
      rw [List.filter_cons_of_pos hv, distinctFrom, distinctFrom]
      by_cases hin : v.fingerprint ∈ seen
      · rw [if_pos hin, if_pos (hmem.mp hin)]
        exact ih hp' hrest
      · rw [if_neg hin, if_neg (fun h => hin (hmem.mpr h)), List.filter_cons_of_pos hv]
        congr 1
        refine ih hp' (fun a ha hpa => ?_)
        simp only [List.mem_cons, hrest a ha hpa]
    | false =>
      rw [List.filter_cons_of_neg (by rw [hv]; exact Bool.false_ne_true), distinctFrom]
      split
      · exact ih hp' hrest
      · rw [List.filter_cons_of_neg (by rw [hv]; exact Bool.false_ne_true)]
        refine ih hp' (fun a ha hpa => ?_)
        have hne : a.fingerprint ≠ v.fingerprint := fun heq => by
          rw [hp a (List.mem_cons_of_mem v ha) v List.mem_cons_self heq, hv] at hpa
          cases hpa
        simp only [List.mem_cons, hne, false_or, hrest a ha hpa]

/-- The named fields of an object, in the order of the names. -/
def pluckedRow (names : List String) (row : Value) : Value :=
  match row with
  | .object fields =>
    .object (names.eraseDups.filterMap (fun name => (Fields.get? fields name).map (name, ·)))
  | other => other

/-- **Objects can be projected.** -/
theorem mapM_pluck (names : List String) (command : String) {rows : List Value}
    (h : AllObjects rows) :
    rows.mapM (pluck names command) = .ok (rows.map (pluckedRow names)) := by
  induction rows with
  | nil => rfl
  | cons row rows ih =>
    obtain ⟨hrow, hrows⟩ := List.forall_mem_cons.mp h
    obtain ⟨fields, rfl⟩ := hrow
    simp [List.mapM_cons, ih hrows, pluck, pluckedRow]

end Value

end QueryAlgebra
