import QueryAlgebra.Proofs.Sql.Containment
import QueryAlgebra.Proofs.Sql.Reading

/-!
# Conditions that are told apart

Conditions that differ in a part need not differ as a whole: what is written around the part might make
up for it, and a column is written more than once in some tests. Two texts are apart when they differ at
some place before either ends. Whatever stands before and behind, and however often they are written,
they stay apart. The truth values of two formulas are apart, as parentheses are balanced in formulas.

* `Apart`: texts that differ at some place before either ends.
* `apart_closed`: different self-contained texts within parentheses.
* `Expression.Apart`, `Formula.Apart`: by the operations of expressions and formulas.
* `Join.render_ne`, `Join.apart`: joined formulas of which one is different.
-/

namespace QueryAlgebra

namespace Sql

/-! ## 1. Texts -/

/-- **Texts that differ at some place before either ends.** -/
def Apart (a b : String) : Prop :=
  ∃ common x y r r', x ≠ y ∧ a.toList = common ++ x :: r ∧ b.toList = common ++ y :: r'

namespace Apart

variable {a b : String}

theorem ne (h : Apart a b) : a ≠ b := by
  obtain ⟨common, x, y, r, r', hne, ha, hb⟩ := h
  rintro rfl
  rw [ha] at hb
  exact hne (List.cons.inj (List.append_cancel_left hb)).1

/-- Behind the same text. -/
theorem after (g : String) (h : Apart a b) : Apart (g ++ a) (g ++ b) := by
  obtain ⟨common, x, y, r, r', hne, ha, hb⟩ := h
  exact ⟨g.toList ++ common, x, y, r, r', hne, by simp [ha], by simp [hb]⟩

/-- Before any texts. -/
theorem before (g g' : String) (h : Apart a b) : Apart (a ++ g) (b ++ g') := by
  obtain ⟨common, x, y, r, r', hne, ha, hb⟩ := h
  exact ⟨common, x, y, r ++ g.toList, r' ++ g'.toList, hne, by simp [ha], by simp [hb]⟩

end Apart

/-- Of two texts, one is the beginning of the other, or they differ before either ends. -/
theorem prefix_or_apart (a b : List Char) :
    a <+: b ∨ b <+: a ∨
      ∃ common x y r r', x ≠ y ∧ a = common ++ x :: r ∧ b = common ++ y :: r' := by
  induction a generalizing b with
  | nil => exact .inl List.nil_prefix
  | cons c a ih =>
    cases b with
    | nil => exact .inr (.inl List.nil_prefix)
    | cons c' b =>
      by_cases hc : c = c'
      · subst hc
        rcases ih b with h | h | ⟨common, x, y, r, r', hne, rfl, rfl⟩
        · exact .inl (List.cons_prefix_cons.mpr ⟨rfl, h⟩)
        · exact .inr (.inl (List.cons_prefix_cons.mpr ⟨rfl, h⟩))
        · exact .inr (.inr ⟨c :: common, x, y, r, r', hne, rfl, rfl⟩)
      · exact .inr (.inr ⟨[], c, c', a, b, hc, rfl, rfl⟩)

/-- A self-contained text is not the beginning of another up to a parenthesis that closes. -/
theorem eq_of_closed_prefixed {d : Dialect} {a b : String} (ha : SelfContained d a) (hb : SelfContained d b)
    (h : a.toList ++ [')'] <+: b.toList ++ [')']) : a = b := by
  obtain ⟨rest, hrest⟩ := h
  rcases List.eq_nil_or_concat rest with rfl | ⟨rest, c, rfl⟩
  · rw [List.append_nil] at hrest
    exact String.toList_inj.mp ((List.append_left_inj [')']).mp hrest)
  -- The parenthesis closes inside of the other text, where none has been opened.
  obtain ⟨ts, hts, hinert⟩ := ha
  obtain ⟨us, hus, hinert'⟩ := hb
  have hb' : b.toList = a.toList ++ ')' :: rest := by
    have happend : (a.toList ++ ')' :: rest) ++ [c] = b.toList ++ [')'] := by simpa using hrest
    exact (List.append_inj' happend rfl).1.symm
  rw [lex, hb', scan_before_separator (by decide) hts, Option.map_eq_some_iff] at hus
  obtain ⟨vs, hvs, rfl⟩ := hus
  have hnesting := hinert'.nesting
  rw [nesting_append hinert.nesting] at hnesting
  have hhead := head?_scan_separator (by decide) hvs
  cases vs with
  | nil => cases hhead
  | cons t vs =>
    obtain rfl : t = .mark ')' := Option.some.inj hhead
    simp [nesting] at hnesting

/-- **Different self-contained texts are apart within parentheses.** -/
theorem apart_closed {d : Dialect} {a b : String} (ha : SelfContained d a) (hb : SelfContained d b)
    (hne : a ≠ b) : Apart ("(" ++ a ++ ")") ("(" ++ b ++ ")") := by
  rw [String.append_assoc, String.append_assoc]
  refine Apart.after "(" ?_
  rcases prefix_or_apart (a ++ ")").toList (b ++ ")").toList with h | h | h
  · exact absurd (eq_of_closed_prefixed ha hb (by simpa using h)) hne
  · exact absurd (eq_of_closed_prefixed hb ha (by simpa using h)).symm hne
  · exact h

/-! ## 2. Expressions and formulas -/

/-- Expressions whose texts are apart. -/
def Expression.Apart (d : Dialect) (e e' : Expression) : Prop := Sql.Apart (e.render d) (e'.render d)

/-- Formulas whose texts are apart. -/
def Formula.Apart (d : Dialect) (f f' : Formula) : Prop := Sql.Apart (f.render d) (f'.render d)

section Operations

variable {d : Dialect} {a b : String} {e e' : Expression} {f f' : Formula}

theorem apart_textView (h : Apart a b) : Apart (d.textView a) (d.textView b) := by
  cases d with
  | sqlite => exact h
  | postgres => exact (h.after _).before _ _

namespace Expression.Apart

theorem textView (h : e.Apart d e') : (Expression.textView e).Apart d (.textView e') :=
  apart_textView h

theorem numericView (h : e.Apart d e') : (Expression.numericView e).Apart d (.numericView e') := by
  cases d with
  | sqlite => exact h
  | postgres =>
    have hview := (apart_textView (d := .postgres) h).after "CASE WHEN "
    exact (((((hview.before _ _).before _ _).before _ _).before _ _).before _ _)

theorem length (h : e.Apart d e') : (Expression.length e).Apart d (.length e') :=
  (h.after _).before _ _

theorem substr (h : e.Apart d e') (start : Position) (n : Option Int) :
    (Expression.substr e start n).Apart d (.substr e' start n) :=
  ((((h.after _).before _ _).before _ _).before _ _).before _ _

theorem arithLeft (h : e.Apart d e') (op : Arith) (right : Expression) :
    (Expression.arith op e right).Apart d (.arith op e' right) :=
  (((((h.after _).before _ _).before _ _).before _ _).before _ _).before _ _

theorem arithRight (h : e.Apart d e') (op : Arith) (left : Expression) :
    (Expression.arith op left e).Apart d (.arith op left e') := by
  simp only [Expression.Apart, Expression.render]
  exact (h.after _).before _ _

/-- Truth values of formulas with different texts are apart. -/
theorem truth (h : f.render d ≠ f'.render d) : (Expression.truth f).Apart d (.truth f') :=
  apart_closed (f.selfContained d) (f'.selfContained d) h

end Expression.Apart

namespace Formula.Apart

theorem eqLeft (h : e.Apart d e') (right : Expression) : (Formula.eq e right).Apart d (.eq e' right) :=
  (h.before _ _).before _ _

theorem eqRight (h : e.Apart d e') (left : Expression) : (Formula.eq left e).Apart d (.eq left e') :=
  h.after _

theorem orderedLeft (h : e.Apart d e') (relation : Relation) (right : Expression) :
    (Formula.ordered relation e right).Apart d (.ordered relation e' right) :=
  (((h.before _ _).before _ _).before _ _).before _ _

theorem orderedRight (h : e.Apart d e') (relation : Relation) (left : Expression) :
    (Formula.ordered relation left e).Apart d (.ordered relation left e') :=
  h.after _

theorem isNull (h : e.Apart d e') : (Formula.isNull e).Apart d (.isNull e') := h.before _ _

theorem isNotNull (h : e.Apart d e') : (Formula.isNotNull e).Apart d (.isNotNull e') := h.before _ _

theorem differsLeft (h : e.Apart d e') (right : Expression) :
    (Formula.differs e right).Apart d (.differs e' right) :=
  (((((h.after _).before _ _).before _ _).before _ _).before _ _).before _ _

theorem differsBothLeft (h : e.Apart d e') (right : Expression) :
    (Formula.differsBoth e right).Apart d (.differsBoth e' right) := by
  simp only [Formula.Apart, Formula.render, String.append_assoc]
  exact (h.before _ _).after _

theorem differsBothRight (h : e.Apart d e') (left : Expression) :
    (Formula.differsBoth left e).Apart d (.differsBoth left e') := by
  simp only [Formula.Apart, Formula.render, String.append_assoc]
  exact (((h.before _ _).after _).after _).after _

theorem like (h : e.Apart d e') (pattern : String) :
    (Formula.like e pattern).Apart d (.like e' pattern) := by
  simp only [Formula.Apart, Formula.render, Dialect.likeText, String.append_assoc]
  exact h.before _ _

theorem notLike (h : e.Apart d e') (pattern : String) :
    (Formula.notLike e pattern).Apart d (.notLike e' pattern) := by
  simp only [Formula.Apart, Formula.render, Dialect.likeText, String.append_assoc]
  exact h.before _ _

end Formula.Apart

/-- A formula is written different from its negation, which is longer. -/
theorem Formula.render_not_ne (f : Formula) : (Formula.not f).render d ≠ f.render d := fun heq => by
  have hlength := congrArg String.length heq
  simp only [Formula.render, String.length_append] at hlength
  have hfixed : "NOT (".length = 5 := rfl
  omega

/-- Negations of different formulas are different. -/
theorem Formula.render_not_injective (h : f.render d ≠ f'.render d) :
    (Formula.not f).render d ≠ (Formula.not f').render d := fun heq => by
  simp only [Formula.render, String.append_left_inj, String.append_right_inj] at heq
  exact h heq

end Operations

/-! ## 3. Joined conditions -/

/-- How conditions are joined. -/
inductive Join where
  /-- All of them are to hold. -/
  | all
  /-- Any of them suffices. -/
  | any
deriving DecidableEq, Repr

namespace Join

/-- Joined conditions. -/
def combine : Join → List Condition → Condition
  | .all => Condition.all
  | .any => Condition.any

/-- The truth value that decides, whatever it is joined with. -/
def decisive : Join → Bool
  | .all => false
  | .any => true

/-- Joined formulas; one alone is not joined. -/
def formula : Join → List Formula → Formula
  | _, [f] => f
  | .all, fs => .all fs
  | .any, fs => .any fs

/-- What stands between joined formulas. -/
def separator : Join → String
  | .all => " AND "
  | .any => " OR "

variable (j : Join) {d : Dialect}

/-- Where no truth value decides, the formulas are joined. -/
theorem combine_eq {parts : List Condition} (hconst : Condition.hasConst j.decisive parts = false)
    (hne : Condition.formulas parts ≠ []) :
    j.combine parts = .formula (j.formula (Condition.formulas parts)) := by
  cases j <;> rw [combine]
  · rw [Condition.all, if_neg (by simpa [decisive] using hconst)]
    split
    · next hnil => exact absurd hnil hne
    · next hone => rw [hone]; rfl
    · next hmore => rw [formula]; exact fun f hone => hmore f hone
  · rw [Condition.any, if_neg (by simpa [decisive] using hconst)]
    split
    · next hnil => exact absurd hnil hne
    · next hone => rw [hone]; rfl
    · next hmore => rw [formula]; exact fun f hone => hmore f hone

/-- Formulas that are joined from more than one. -/
theorem render_formula {fs : List Formula} (h : fs.length ≠ 1) :
    (j.formula fs).render d
      = "(" ++ Text.joined j.separator (fs.map (Formula.render d)) ++ ")" := by
  have hrender (fs : List Formula) : renderFormulas d fs = fs.map (Formula.render d) := by
    induction fs with
    | nil => rfl
    | cons f fs ih => rw [renderFormulas, ih, List.map_cons]
  rcases fs with - | ⟨f, - | ⟨g, fs⟩⟩
  · cases j <;> rfl
  · exact absurd rfl h
  · cases j <;> simp only [formula, Formula.render, hrender, separator]

end Join

/-- Among joined texts, what stands before one does not depend on it and on what follows, and what
    stands behind it does not depend on it. -/
theorem joined_split (separator : String) (before : List String) :
    ∃ opening, ∀ behind, ∃ closing, ∀ text,
      Text.joined separator (before ++ text :: behind) = opening ++ text ++ closing := by
  induction before with
  | nil =>
    refine ⟨"", fun behind => ?_⟩
    cases behind with
    | nil => exact ⟨"", fun text => by simp [Text.joined]⟩
    | cons next behind =>
      exact ⟨separator ++ Text.joined separator (next :: behind), fun text => by
        simp [Text.joined, String.intercalate_cons_cons, String.append_assoc]⟩
  | cons first before ih =>
    obtain ⟨opening, hopening⟩ := ih
    refine ⟨first ++ separator ++ opening, fun behind => ?_⟩
    obtain ⟨closing, hclosing⟩ := hopening behind
    refine ⟨closing, fun text => ?_⟩
    have hsecond : ∃ next rest, before ++ text :: behind = next :: rest :=
      List.exists_cons_of_ne_nil (by simp)
    obtain ⟨next, rest, hnext⟩ := hsecond
    have hrest := hclosing text
    rw [hnext] at hrest
    rw [List.cons_append, hnext, Text.joined, String.intercalate_cons_cons, ← Text.joined, hrest]
    simp only [String.append_assoc]

namespace Join

variable (j : Join) {d : Dialect}

/-- The text of joined formulas, by one of them. What stands before it depends on how many follow, and
    on none of them. -/
theorem render_split (d : Dialect) (before : List Formula) (n : Nat) :
    ∃ opening, ∀ behind : List Formula, behind.length = n → ∃ closing, ∀ f,
      (j.formula (before ++ f :: behind)).render d = opening ++ f.render d ++ closing := by
  by_cases hone : before = [] ∧ n = 0
  · obtain ⟨rfl, rfl⟩ := hone
    refine ⟨"", fun behind hlength => ⟨"", fun f => ?_⟩⟩
    obtain rfl := List.eq_nil_of_length_eq_zero hlength
    simp [formula]
  · obtain ⟨opening, hopening⟩ := joined_split j.separator (before.map (Formula.render d))
    refine ⟨"(" ++ opening, fun behind hlength => ?_⟩
    obtain ⟨closing, hclosing⟩ := hopening (behind.map (Formula.render d))
    refine ⟨closing ++ ")", fun f => ?_⟩
    have hmore : (before ++ f :: behind).length ≠ 1 := fun hlength' => hone <| by
      simp only [List.length_append, List.length_cons, hlength] at hlength'
      exact ⟨List.eq_nil_of_length_eq_zero (by omega), by omega⟩
    rw [j.render_formula hmore, List.map_append, List.map_cons, hclosing]
    simp only [String.append_assoc]

/-- **Joined formulas are different when one of them is.** -/
theorem render_ne {f g : Formula} (h : f.render d ≠ g.render d) (before behind : List Formula) :
    (j.formula (before ++ f :: behind)).render d ≠ (j.formula (before ++ g :: behind)).render d := by
  obtain ⟨opening, hopening⟩ := j.render_split d before behind.length
  obtain ⟨closing, hclosing⟩ := hopening behind rfl
  rw [hclosing, hclosing]
  intro heq
  simp only [String.append_left_inj, String.append_right_inj] at heq
  exact h heq

/-- **Joined formulas are apart when one of them is apart,** whatever follows. -/
theorem apart {f g : Formula} (h : f.Apart d g) (before : List Formula) {behind behind' : List Formula}
    (hlength : behind.length = behind'.length) :
    (j.formula (before ++ f :: behind)).Apart d (j.formula (before ++ g :: behind')) := by
  obtain ⟨opening, hopening⟩ := j.render_split d before behind'.length
  obtain ⟨closing, hclosing⟩ := hopening behind hlength
  obtain ⟨closing', hclosing'⟩ := hopening behind' rfl
  rw [Formula.Apart, hclosing, hclosing']
  exact (h.after opening).before closing closing'

end Join

namespace Condition

theorem formulas_append (before behind : List Condition) :
    formulas (before ++ behind) = formulas before ++ formulas behind := by
  induction before with
  | nil => rfl
  | cons c before ih => cases c <;> simp [formulas, ih]

/-- A condition that is a formula. -/
def IsFormula (c : Condition) : Prop := ∀ b, c ≠ .const b

theorem isFormula_formula (f : Formula) : (Condition.formula f).IsFormula := fun _ heq => by cases heq

theorem IsFormula.eq_formula {c : Condition} (h : c.IsFormula) : ∃ f, c = .formula f := by
  cases c with
  | formula f => exact ⟨f, rfl⟩
  | const b => exact absurd rfl (h b)

theorem length_formulas {parts : List Condition} (h : ∀ c ∈ parts, c.IsFormula) :
    (formulas parts).length = parts.length := by
  induction parts with
  | nil => rfl
  | cons c parts ih =>
    obtain ⟨hc, hparts⟩ := List.forall_mem_cons.mp h
    obtain ⟨f, rfl⟩ := hc.eq_formula
    simp [formulas, ih hparts]

/-- Formulas whose texts are apart, as conditions. -/
inductive Apart (d : Dialect) : Condition → Condition → Prop
  | formula {f g : Formula} (h : f.Apart d g) : Apart d (.formula f) (.formula g)

end Condition

namespace Join

variable (j : Join) {d : Dialect}

/-- A formula among conditions of which none decides. -/
theorem combine_split {before behind : List Condition} (hbefore : .const j.decisive ∉ before)
    (hbehind : .const j.decisive ∉ behind) (f : Formula) :
    j.combine (before ++ .formula f :: behind)
      = .formula (j.formula (Condition.formulas before ++ f :: Condition.formulas behind)) := by
  have hformulas : Condition.formulas (before ++ .formula f :: behind)
      = Condition.formulas before ++ f :: Condition.formulas behind := by
    rw [Condition.formulas_append, Condition.formulas]
  have hconst : Condition.hasConst j.decisive (before ++ .formula f :: behind) = false := by
    rw [Bool.eq_false_iff, ne_eq, Condition.hasConst_iff]
    simp [hbefore, hbehind]
  rw [j.combine_eq hconst (by simp [hformulas]), hformulas]

/-- A formula before conditions of which none decides. -/
theorem combine_cons {behind : List Condition} (hbehind : .const j.decisive ∉ behind) (f : Formula) :
    j.combine (.formula f :: behind) = .formula (j.formula (f :: Condition.formulas behind)) := by
  have hsplit : j.combine ([] ++ .formula f :: behind) = _ :=
    j.combine_split List.not_mem_nil hbehind f
  exact hsplit

/-- Joined formulas are a formula, if there is one. -/
theorem combine_isFormula {c : Condition} {rest : List Condition} (hc : c.IsFormula)
    (hrest : ∀ x ∈ rest, x.IsFormula) : (j.combine (c :: rest)).IsFormula := by
  obtain ⟨f, rfl⟩ := hc.eq_formula
  rw [j.combine_cons (fun hmem => hrest _ hmem _ rfl) f]
  exact Condition.isFormula_formula _

/-- **Joined tests are apart when one of them is apart,** if all of them are formulas. -/
theorem combine_apart {before behind behind' : List Condition} {c c' : Condition}
    (h : c.Apart d c') (hbefore : ∀ x ∈ before, x.IsFormula) (hbehind : ∀ x ∈ behind, x.IsFormula)
    (hbehind' : ∀ x ∈ behind', x.IsFormula) (hlength : behind.length = behind'.length) :
    (j.combine (before ++ c :: behind)).Apart d (j.combine (before ++ c' :: behind')) := by
  obtain ⟨hfg⟩ := h
  rw [j.combine_split (fun hmem => hbefore _ hmem _ rfl) (fun hmem => hbehind _ hmem _ rfl),
    j.combine_split (fun hmem => hbefore _ hmem _ rfl) (fun hmem => hbehind' _ hmem _ rfl)]
  refine .formula (j.apart hfg _ ?_)
  rw [Condition.length_formulas hbehind, Condition.length_formulas hbehind', hlength]

/-- Joined tests are apart when the first ones are apart. -/
theorem combine_apart_first {behind behind' : List Condition} {c c' : Condition}
    (h : c.Apart d c') (hbehind : ∀ x ∈ behind, x.IsFormula) (hbehind' : ∀ x ∈ behind', x.IsFormula)
    (hlength : behind.length = behind'.length) :
    (j.combine (c :: behind)).Apart d (j.combine (c' :: behind')) := by
  have hsplit : (j.combine ([] ++ c :: behind)).Apart d (j.combine ([] ++ c' :: behind')) :=
    j.combine_apart h (List.forall_mem_nil _) hbehind hbehind' hlength
  exact hsplit

end Join

/-! ## 4. Terms and tests -/

/-- Terms of the same kind over the row whose texts are apart. -/
inductive Term.Apart (d : Dialect) : Term → Term → Prop
  | expression {e e' : Expression} (h : e.Apart d e') (numeric : Bool) :
      Apart d (.expression e numeric) (.expression e' numeric)

section Tests

variable {d : Dialect} {t t' : Term} {e e' : Expression}

namespace Term.Apart

theorem plain (h : t.Apart d t') : t.plain.Apart d t'.plain := by
  obtain ⟨h, numeric⟩ := h
  exact h

theorem asNumber (h : t.Apart d t') : t.asNumber.Apart d t'.asNumber := by
  obtain ⟨h, numeric⟩ := h
  cases numeric with
  | false => exact h.numericView
  | true => exact h

theorem against (h : t.Apart d t') (other : Term) : (t.against other).Apart d (t'.against other) := by
  obtain ⟨h, numeric⟩ := h
  cases other with
  | null | expression _ _ => cases numeric <;> exact h
  | literal v =>
    cases v with
    | number n =>
      cases numeric with
      | false => exact h.numericView
      | true => exact h
    | string s => cases numeric <;> exact h.textView
    | null | bool _ | array _ | object _ => cases numeric <;> exact h

/-- What a term is compared with is read in one way. -/
theorem against_eq (h : t.Apart d t') (other : Term) : other.against t = other.against t' := by
  obtain ⟨h, numeric⟩ := h
  rcases other with - | - | ⟨e, (- | -)⟩ <;> rfl

end Term.Apart

theorem equalityTest_isFormula (column : Term) (negated : Bool) (other : Term) :
    (equalityTest column negated other).IsFormula := Condition.isFormula_formula _

/-- A column that is compared with a term. -/
theorem equalityTest_left (h : t.Apart d t') (negated : Bool) (other : Term) :
    (equalityTest t negated other).Apart d (equalityTest t' negated other) := by
  have hright := h.against_eq other
  refine .formula ?_
  rcases other with - | v | ⟨e, numeric⟩ <;> cases negated <;> simp only [hright]
  · exact .isNull h.plain
  · exact .isNotNull h.plain
  · exact .eqLeft (h.against _) _
  · exact .differsLeft (h.against _) _
  · exact .eqLeft (h.against _) _
  · exact .differsBothLeft (h.against _) _

/-- A term that a column is compared with. -/
theorem equalityTest_right (h : t.Apart d t') (column : Term) (negated : Bool) :
    (equalityTest column negated t).Apart d (equalityTest column negated t') := by
  have hleft := h.against_eq column
  have hright := h.against column
  obtain ⟨h, numeric⟩ := h
  refine .formula ?_
  cases negated <;> simp only [hleft]
  · exact .eqRight hright _
  · exact .differsBothRight hright _

/-- Tests of an operand list, all of which are formulas. -/
theorem forall_mem_map_isFormula {α : Type} {test : α → Condition} (h : ∀ a, (test a).IsFormula)
    (as : List α) : ∀ c ∈ as.map test, c.IsFormula := List.forall_mem_map.mpr fun a _ => h a

/-- Tests of a column against several operands: all of them begin with the column. -/
theorem any_apart_left {α : Type} {test test' : α → Condition} (h : ∀ a, (test a).Apart d (test' a))
    (hformula : ∀ a, (test a).IsFormula) (hformula' : ∀ a, (test' a).IsFormula) {as : List α}
    (hne : as ≠ []) : (Condition.any (as.map test)).Apart d (.any (as.map test')) := by
  obtain ⟨a, rest, rfl⟩ := List.exists_cons_of_ne_nil hne
  exact Join.any.combine_apart_first (h a)
    (forall_mem_map_isFormula hformula rest) (forall_mem_map_isFormula hformula' rest) (by simp)

/-- Any of some tests is a formula, if there is one. -/
theorem any_isFormula {α : Type} {test : α → Condition} (hformula : ∀ a, (test a).IsFormula)
    {as : List α} (hne : as ≠ []) : (Condition.any (as.map test)).IsFormula := by
  obtain ⟨a, rest, rfl⟩ := List.exists_cons_of_ne_nil hne
  exact Join.any.combine_isFormula (hformula a) (forall_mem_map_isFormula hformula rest)

/-- Tests against several operands of which one is different. -/
theorem any_apart_right {α : Type} {test : α → Condition} (hformula : ∀ a, (test a).IsFormula)
    {a a' : α} (h : (test a).Apart d (test a')) (left right : List α) :
    (Condition.any ((left ++ a :: right).map test)).Apart d
      (.any ((left ++ a' :: right).map test)) := by
  rw [List.map_append, List.map_append]
  exact Join.any.combine_apart h (forall_mem_map_isFormula hformula left)
    (forall_mem_map_isFormula hformula right) (forall_mem_map_isFormula hformula right) rfl

theorem chainTests_isFormula (relation : Relation) (terms : List Term) :
    ∀ c ∈ chainTests relation terms, c.IsFormula := by
  match terms with
  | [] | [_] => exact List.forall_mem_nil _
  | a :: b :: rest =>
    exact List.forall_mem_cons.mpr
      ⟨Condition.isFormula_formula _, chainTests_isFormula relation (b :: rest)⟩

theorem length_chainTests (relation : Relation) (terms : List Term) :
    (chainTests relation terms).length = terms.length - 1 := by
  match terms with
  | [] | [_] => rfl
  | a :: b :: rest => simp [chainTests, length_chainTests relation (b :: rest)]

/-- The tests of a chain up to one of its terms, and those from it on. -/
theorem chainTests_append (relation : Relation) (before : List Term) (a : Term) (behind : List Term) :
    chainTests relation (before ++ a :: behind)
      = chainTests relation (before ++ [a]) ++ chainTests relation (a :: behind) := by
  match before with
  | [] => rfl
  | [_] => simp [chainTests]
  | first :: second :: rest =>
    have ih := chainTests_append relation (second :: rest) a behind
    simp only [List.cons_append, chainTests] at ih ⊢
    rw [ih]

theorem all_chainTests_isFormula (relation : Relation) (a : Term) {terms : List Term}
    (hne : terms ≠ []) : (Condition.all (chainTests relation (a :: terms))).IsFormula := by
  obtain ⟨b, rest, rfl⟩ := List.exists_cons_of_ne_nil hne
  exact Join.all.combine_isFormula (Condition.isFormula_formula _) (chainTests_isFormula relation _)

/-- A column at the beginning of a chain. -/
theorem all_chainTests_left (h : t.Apart d t') (relation : Relation) {terms : List Term}
    (hne : terms ≠ []) :
    (Condition.all (chainTests relation (t :: terms))).Apart d
      (.all (chainTests relation (t' :: terms))) := by
  obtain ⟨b, rest, rfl⟩ := List.exists_cons_of_ne_nil hne
  have hfirst : (Condition.formula (.ordered relation (t.against b) (b.against t))).Apart d
      (.formula (.ordered relation (t'.against b) (b.against t'))) := by
    rw [h.against_eq b]
    exact .formula (.orderedLeft (h.against b) relation _)
  exact Join.all.combine_apart_first hfirst
    (chainTests_isFormula relation _) (chainTests_isFormula relation _) rfl

/-- A term in a chain behind a column. -/
theorem all_chainTests_right (h : t.Apart d t') (relation : Relation) (column : Term)
    (left right : List Term) :
    (Condition.all (chainTests relation (column :: (left ++ t :: right)))).Apart d
      (.all (chainTests relation (column :: (left ++ t' :: right)))) := by
  -- What stands right before the term is compared with it.
  obtain ⟨before, a, hsplit⟩ : ∃ before a, column :: left = before ++ [a] :=
    ⟨_, _, (List.dropLast_append_getLast (List.cons_ne_nil column left)).symm⟩
  have hchain (x : Term) : chainTests relation (column :: (left ++ x :: right))
      = chainTests relation (before ++ [a])
        ++ .formula (.ordered relation (a.against x) (x.against a))
          :: chainTests relation (x :: right) := by
    rw [← List.cons_append, hsplit, List.append_assoc, List.singleton_append, chainTests_append,
      chainTests]
  have htest : (Condition.formula (.ordered relation (a.against t) (t.against a))).Apart d
      (.formula (.ordered relation (a.against t') (t'.against a))) := by
    rw [h.against_eq a]
    exact .formula (.orderedRight (h.against a) relation _)
  rw [hchain, hchain]
  exact Join.all.combine_apart htest (chainTests_isFormula relation _)
    (chainTests_isFormula relation _) (chainTests_isFormula relation _)
    (by rw [length_chainTests, length_chainTests]; rfl)

theorem subFieldTest_isFormula (column : Expression) (field : String) (negated : Bool) (v : Value) :
    (subFieldTest column field negated v).IsFormula := by
  cases negated <;> exact Condition.isFormula_formula _

/-- A column whose JSON text is looked into. -/
theorem subFieldTest_apart (h : e.Apart d e') (field : String) (negated : Bool) (v : Value) :
    (subFieldTest e field negated v).Apart d (subFieldTest e' field negated v) := by
  cases negated with
  | false =>
    exact Join.any.combine_apart_first (.formula (.like h _))
      (List.forall_mem_singleton.mpr (Condition.isFormula_formula _))
      (List.forall_mem_singleton.mpr (Condition.isFormula_formula _)) rfl
  | true =>
    exact Join.all.combine_apart_first (.formula (.notLike h _))
      (List.forall_mem_singleton.mpr (Condition.isFormula_formula _))
      (List.forall_mem_singleton.mpr (Condition.isFormula_formula _)) rfl

/-- The total of an operation on numbers, when its beginning is different. -/
theorem foldl_arith_left (h : e.Apart d e') (op : Arith) (terms : List Term) :
    (terms.foldl (fun acc x => Expression.arith op acc x.asNumber) e).Apart d
      (terms.foldl (fun acc x => Expression.arith op acc x.asNumber) e') := by
  induction terms generalizing e e' with
  | nil => exact h
  | cons x terms ih => exact ih (h.arithLeft op x.asNumber)

/-- The total of an operation on numbers, when one of its terms is different. -/
theorem foldl_arith_right (h : t.Apart d t') (op : Arith) (e : Expression) (left right : List Term) :
    ((left ++ t :: right).foldl (fun acc x => Expression.arith op acc x.asNumber) e).Apart d
      ((left ++ t' :: right).foldl (fun acc x => Expression.arith op acc x.asNumber) e) := by
  rw [List.foldl_append, List.foldl_append, List.foldl_cons, List.foldl_cons]
  exact foldl_arith_left (h.asNumber.arithRight op _) op right

end Tests

end Sql

end QueryAlgebra
