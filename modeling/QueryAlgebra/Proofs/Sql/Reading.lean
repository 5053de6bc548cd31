import Mathlib.Tactic.Common
import QueryAlgebra.Sql.Expression

/-!
# The meaning of formulas

How a database reads a formula on a row. A truth value may be unknown: a comparison with null is,
and negation, conjunction and disjunction pass it on unless the other parts decide. Only the tests
for null are always known.

What a database does with values other than null is left open (`Engine`): how it compares them, and
what its functions answer. `Engine.Standard` says what every database does: numbers compare by
value, texts by their characters, and a number is its own numeric view.

* `Condition.truth_all`, `Condition.truth_any`: leaving truth values out of a condition does not
  change its meaning.
* `Truth.Agrees`: a known truth value is a given one. All connectives keep this.
-/

namespace QueryAlgebra

namespace Sql

/-! ## 1. Truth values -/

/-- A truth value, or none where it is unknown. -/
abbrev Truth := Option Bool

namespace Truth

/-- Negation. -/
def not (t : Truth) : Truth := Option.map (fun b => !b) t

/-- Conjunction: a false part decides, an unknown one leaves it open. -/
def all (ts : List Truth) : Truth :=
  if some false ∈ ts then some false else if none ∈ ts then none else some true

/-- Disjunction: a true part decides, an unknown one leaves it open. -/
def any (ts : List Truth) : Truth :=
  if some true ∈ ts then some true else if none ∈ ts then none else some false

/-- A truth value that is the given one as far as it is known. -/
def Agrees (t : Truth) (b : Bool) : Prop := ∀ a, t = some a → a = b

@[simp] theorem not_some (b : Bool) : not (some b) = some !b := rfl

@[simp] theorem not_none : not none = none := rfl

@[simp] theorem all_nil : all [] = some true := rfl

@[simp] theorem any_nil : any [] = some false := rfl

@[simp] theorem all_singleton (t : Truth) : all [t] = t := by
  rcases t with _ | _ | _ <;> rfl

@[simp] theorem any_singleton (t : Truth) : any [t] = t := by
  rcases t with _ | _ | _ <;> rfl

theorem all_congr {ss ts : List Truth} (hfalse : some false ∈ ss ↔ some false ∈ ts)
    (hnone : none ∈ ss ↔ none ∈ ts) : all ss = all ts := by
  simp only [all, hfalse, hnone]

theorem any_congr {ss ts : List Truth} (htrue : some true ∈ ss ↔ some true ∈ ts)
    (hnone : none ∈ ss ↔ none ∈ ts) : any ss = any ts := by
  simp only [any, htrue, hnone]

theorem eq_some_true_of_all {ts : List Truth} (h : all ts = some true) {t : Truth} (ht : t ∈ ts) :
    t = some true := by
  unfold all at h
  split_ifs at h with hfalse hnone
  · cases h
  · rcases t with _ | _ | _
    · exact absurd ht hnone
    · exact absurd ht hfalse
    · rfl

theorem mem_of_all_eq_false {ts : List Truth} (h : all ts = some false) : some false ∈ ts := by
  unfold all at h
  split_ifs at h with hfalse hnone
  · exact hfalse
  · cases h

theorem mem_of_any_eq_true {ts : List Truth} (h : any ts = some true) : some true ∈ ts := by
  unfold any at h
  split_ifs at h with htrue hnone
  · exact htrue
  · cases h

theorem eq_some_false_of_any {ts : List Truth} (h : any ts = some false) {t : Truth} (ht : t ∈ ts) :
    t = some false := by
  unfold any at h
  split_ifs at h with htrue hnone
  · cases h
  · rcases t with _ | _ | _
    · exact absurd ht hnone
    · rfl
    · exact absurd ht htrue

theorem any_eq_true {ts : List Truth} (h : some true ∈ ts) : any ts = some true := if_pos h

theorem all_eq_true {ts : List Truth} (h : ∀ t ∈ ts, t = some true) : all ts = some true := by
  unfold all
  rw [if_neg (fun hf => by cases h _ hf), if_neg (fun hn => by cases h _ hn)]

theorem agrees_some (b : Bool) : Agrees (some b) b := fun _ h => (Option.some.inj h).symm

theorem agrees_none (b : Bool) : Agrees none b := fun _ h => by cases h

theorem Agrees.not {t : Truth} {b : Bool} (h : Agrees t b) : Agrees (not t) !b := by
  intro a ha
  cases t with
  | none => cases ha
  | some c => rw [← Option.some.inj ha, h c rfl]

/-- A conjunction agrees with that of the answers its parts agree with. -/
theorem Agrees.all {α : Type} {l : List α} {f : α → Truth} {g : α → Bool}
    (h : ∀ a ∈ l, Agrees (f a) (g a)) : Agrees (all (l.map f)) (l.all g) := by
  intro b hb
  cases b with
  | true =>
    symm
    rw [List.all_eq_true]
    intro a ha
    exact (h a ha true (eq_some_true_of_all hb (List.mem_map_of_mem ha))).symm
  | false =>
    obtain ⟨a, ha, hf⟩ := List.mem_map.mp (mem_of_all_eq_false hb)
    symm
    rw [List.all_eq_false]
    exact ⟨a, ha, by rw [← h a ha false hf]; decide⟩

/-- A disjunction agrees with that of the answers its parts agree with. -/
theorem Agrees.any {α : Type} {l : List α} {f : α → Truth} {g : α → Bool}
    (h : ∀ a ∈ l, Agrees (f a) (g a)) : Agrees (any (l.map f)) (l.any g) := by
  intro b hb
  cases b with
  | true =>
    obtain ⟨a, ha, hf⟩ := List.mem_map.mp (mem_of_any_eq_true hb)
    symm
    rw [List.any_eq_true]
    exact ⟨a, ha, (h a ha true hf).symm⟩
  | false =>
    symm
    rw [List.any_eq_false]
    intro a ha
    rw [← h a ha false (eq_some_false_of_any hb (List.mem_map_of_mem ha))]
    decide

/-- Where every part is known, so is a conjunction. -/
theorem all_ne_none {ts : List Truth} (h : ∀ t ∈ ts, t ≠ none) : all ts ≠ none := by
  unfold all
  split_ifs with hfalse hnone
  · exact Option.some_ne_none _
  · exact absurd rfl (h none hnone)
  · exact Option.some_ne_none _

/-- Where every part is known, so is a disjunction. -/
theorem any_ne_none {ts : List Truth} (h : ∀ t ∈ ts, t ≠ none) : any ts ≠ none := by
  unfold any
  split_ifs with htrue hnone
  · exact Option.some_ne_none _
  · exact absurd rfl (h none hnone)
  · exact Option.some_ne_none _

end Truth

/-! ## 2. Formulas on rows -/

/-- What a database does with values. -/
structure Engine where
  /-- The number that a value is read as. -/
  numeric : Value → Value
  /-- The text that a value is read as. -/
  text : Value → Value
  /-- Equality of two values other than null. -/
  equal : Value → Value → Bool
  /-- A comparison of two values other than null. -/
  related : Relation → Value → Value → Bool
  /-- The length of a text. -/
  length : Value → Value
  /-- A part of a text. -/
  substr : Value → Position → Option Int → Value
  /-- An operation on numbers. -/
  arith : Arith → Value → Value → Value
  /-- Whether a text other than null matches a pattern. -/
  like : Value → String → Bool

/-- What every database does with null, numbers and texts. -/
structure Engine.Standard (e : Engine) : Prop where
  numeric_null : e.numeric .null = .null
  numeric_number : ∀ n, e.numeric (.number n) = .number n
  text_null : e.text .null = .null
  text_string : ∀ s, e.text (.string s) = .string s
  equal_number : ∀ m n, e.equal (.number m) (.number n) = m.same n
  equal_string : ∀ s t, e.equal (.string s) (.string t) = (s == t)
  related_number : ∀ r m n, e.related r (.number m) (.number n) = r.holds (m.order n)
  related_string : ∀ r s t, e.related r (.string s) (.string t) = r.holds (compare s t)

/-- A test of two values, unknown when one of them is null. -/
def unlessNull (test : Value → Value → Bool) (a b : Value) : Truth :=
  if a.isNull || b.isNull then none else some (test a b)

/-- The value of a column; one that a row does not have is null. -/
def columnOf (row : Fields) (name : String) : Value := (row.get? name).getD .null

/-- A truth value as a value. -/
def truthValue : Truth → Value
  | some b => .bool b
  | none => .null

section Reading

variable (e : Engine) (row : Fields)

mutual

/-- The value of an expression on a row. -/
def Expression.value : Expression → Value
  | .column name => columnOf row name
  | .null => .null
  | .literal v => v
  | .comparable v => v
  | .numericView x => e.numeric (Expression.value x)
  | .textView x => e.text (Expression.value x)
  | .length x => e.length (Expression.value x)
  | .substr x start length => e.substr (Expression.value x) start length
  | .arith op left right => e.arith op (Expression.value left) (Expression.value right)
  | .truth f => truthValue (Formula.truth f)

/-- The truth value of a formula on a row. -/
def Formula.truth : Formula → Truth
  | .eq left right => unlessNull e.equal (Expression.value left) (Expression.value right)
  | .ordered relation left right =>
    unlessNull (e.related relation) (Expression.value left) (Expression.value right)
  | .isNull x => some (Expression.value x).isNull
  | .isNotNull x => some !(Expression.value x).isNull
  | .differs left right =>
    Truth.any [Truth.not (unlessNull e.equal (Expression.value left) (Expression.value right)),
      some (Expression.value left).isNull]
  | .differsBoth left right =>
    Truth.any [Truth.not (unlessNull e.equal (Expression.value left) (Expression.value right)),
      some ((Expression.value left).isNull != (Expression.value right).isNull)]
  | .like x pattern =>
    unlessNull (fun v _ => e.like v pattern) (Expression.value x) (.string pattern)
  | .notLike x pattern =>
    Truth.not (unlessNull (fun v _ => e.like v pattern) (Expression.value x) (.string pattern))
  | .not f => Truth.not (Formula.truth f)
  | .all fs => Truth.all (truths fs)
  | .any fs => Truth.any (truths fs)

/-- The truth values of formulas on a row. -/
def truths : List Formula → List Truth
  | [] => []
  | f :: rest => Formula.truth f :: truths rest

end

/-- The truth value of a condition on a row. -/
def Condition.truth : Condition → Truth
  | .formula f => f.truth e row
  | .const b => some b

/-! ## 3. Conditions -/

theorem truths_eq_map (fs : List Formula) : truths e row fs = fs.map (Formula.truth e row) := by
  induction fs with
  | nil => rw [truths]; rfl
  | cons f fs ih => rw [truths, ih]; rfl

end Reading

namespace Condition

variable {e : Engine} {row : Fields}

theorem hasConst_iff {b : Bool} {parts : List Condition} :
    hasConst b parts = true ↔ .const b ∈ parts := by
  induction parts with
  | nil => simp [hasConst]
  | cons c parts ih => cases c <;> simp [hasConst, ih, eq_comm (a := b)]

theorem mem_formulas {f : Formula} {parts : List Condition} :
    f ∈ formulas parts ↔ .formula f ∈ parts := by
  induction parts with
  | nil => simp [formulas]
  | cons c parts ih => cases c <;> simp [formulas, ih]

/-- Where one truth value is not among conditions, any other truth value than its opposite comes
    from a formula. -/
theorem mem_truth_iff {b : Bool} {parts : List Condition} (h : hasConst (!b) parts = false)
    {t : Truth} (ht : t ≠ some b) :
    t ∈ parts.map (Condition.truth e row) ↔ t ∈ (formulas parts).map (Formula.truth e row) := by
  simp only [List.mem_map]
  constructor
  · rintro ⟨c, hc, rfl⟩
    cases c with
    | formula f => exact ⟨f, mem_formulas.mpr hc, rfl⟩
    | const c =>
      have hne : c ≠ b := fun hcb => ht (congrArg some hcb)
      obtain rfl : c = !b := by revert hne; cases c <;> cases b <;> decide
      rw [hasConst_iff.mpr hc] at h
      cases h
  · rintro ⟨f, hf, rfl⟩
    exact ⟨.formula f, mem_formulas.mp hf, rfl⟩

@[simp] theorem truth_not (c : Condition) : c.not.truth e row = Truth.not (c.truth e row) := by
  cases c with
  | formula f => simp [Condition.not, truth, Formula.truth]
  | const b => rfl

/-- **Leaving true parts out of a conjunction does not change it,** and neither does stopping at a
    false one. -/
theorem truth_all (parts : List Condition) :
    (all parts).truth e row = Truth.all (parts.map (Condition.truth e row)) := by
  unfold all
  by_cases h : hasConst false parts = true
  · rw [if_pos h]
    have hmem : some false ∈ parts.map (Condition.truth e row) :=
      List.mem_map.mpr ⟨.const false, hasConst_iff.mp h, rfl⟩
    unfold Truth.all
    rw [if_pos hmem]
    rfl
  · rw [if_neg h]
    have hconst : hasConst (!true) parts = false := Bool.not_eq_true _ ▸ h
    rw [Truth.all_congr (mem_truth_iff hconst (by decide)) (mem_truth_iff hconst (by decide))]
    rcases hfs : formulas parts with _ | ⟨f, _ | ⟨g, fs⟩⟩
    · rfl
    · rw [List.map_singleton, Truth.all_singleton]
      rfl
    · simp only [truth, Formula.truth, truths_eq_map]

/-- **Leaving false parts out of a disjunction does not change it,** and neither does stopping at a
    true one. -/
theorem truth_any (parts : List Condition) :
    (any parts).truth e row = Truth.any (parts.map (Condition.truth e row)) := by
  unfold any
  by_cases h : hasConst true parts = true
  · rw [if_pos h]
    have hmem : some true ∈ parts.map (Condition.truth e row) :=
      List.mem_map.mpr ⟨.const true, hasConst_iff.mp h, rfl⟩
    unfold Truth.any
    rw [if_pos hmem]
    rfl
  · rw [if_neg h]
    have hconst : hasConst (!false) parts = false := Bool.not_eq_true _ ▸ h
    rw [Truth.any_congr (mem_truth_iff hconst (by decide)) (mem_truth_iff hconst (by decide))]
    rcases hfs : formulas parts with _ | ⟨f, _ | ⟨g, fs⟩⟩
    · rfl
    · rw [List.map_singleton, Truth.any_singleton]
      rfl
    · simp only [truth, Formula.truth, truths_eq_map]

end Condition

end Sql

end QueryAlgebra
