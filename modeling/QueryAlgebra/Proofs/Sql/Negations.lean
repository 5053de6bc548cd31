import QueryAlgebra.Proofs.Sql.Effects

/-!
# Negations in front of values

A value in a filter is a queue on the row, compared with a column or used in arithmetic. A negation in front
of the queue is kept for the next test. If the queue writes one, the condition of the whole filter is
different, however deep the value stands and whatever is written around it. If it writes none, the column is
the value, and the negation is dropped.

The runs of the queue with and without the negation are followed side by side. They differ in a pending
negation until a test is written (`Pending`), and are told apart from then on (`ToldApart`): by what they have
written, or by the column that waits.

* `untested`: the queues that write no test.
* `ToldApart.step`, `Pending.step`: one operation on both runs.
* `ToldApart.run`, `Pending.run`: the whole queue.
* `Place.carried`: what stands around a value carries a difference on.
* `negated_value_same_iff`: when a negation is dropped.
-/

namespace QueryAlgebra

namespace Sql

open Stateful

variable {σ : Type}

/-! ## 1. Two runs side by side -/

/-- **Two runs that are told apart:** by what they have written, or by the column that waits. -/
inductive ToldApart (d : Dialect) : Compiled → Compiled → Prop
  | written (column : Option (Expression × Bool)) (subField : Option String) (negateNext : Bool)
      {f g : Formula} (h : f.render d ≠ g.render d) :
      ToldApart d ⟨column, subField, some (.formula f), negateNext⟩
        ⟨column, subField, some (.formula g), negateNext⟩
  | held (numeric : Bool) (subField : Option String) (negateNext : Bool) {e e' : Expression}
      {condition : Option Condition} (hformulaic : ∀ b, condition ≠ some (.const b))
      (h : e.Apart d e') :
      ToldApart d ⟨some (e, numeric), subField, condition, negateNext⟩
        ⟨some (e', numeric), subField, condition, negateNext⟩

/-- **Two runs that have written nothing, one of which is to negate the next test.** -/
inductive Pending : Compiled → Compiled → Prop
  | mk (column : Option (Expression × Bool)) (subField : Option String) (negateNext : Bool) :
      Pending ⟨column, subField, none, negateNext⟩ ⟨column, subField, none, !negateNext⟩

section Pairs

variable {d : Dialect} {c c' r : Compiled} {effect : Effect}

/-- Different tests are told apart. -/
theorem toldApart_emit {f g : Formula} (h : f.render d ≠ g.render d) (hformulaic : c.Formulaic) :
    ToldApart d (c.emit (.formula f)) (c.emit (.formula g)) := by
  obtain ⟨column, subField, - | (w | b), - | -⟩ := c
  · exact .written _ _ _ h
  · exact .written _ _ _ (Formula.render_not_injective h)
  · exact .written _ _ _ (Join.all.render_ne h [w] [])
  · exact .written _ _ _ (Join.all.render_ne (Formula.render_not_injective h) [w] [])
  · exact absurd rfl (hformulaic b)
  · exact absurd rfl (hformulaic b)

/-- Behind different conditions, a test does not make up for the difference. -/
theorem toldApart_emit_written (column : Option (Expression × Bool)) (subField : Option String)
    (negateNext : Bool) {f g : Formula} (h : f.render d ≠ g.render d) {test : Condition}
    (htest : test.IsFormula) :
    ToldApart d (Compiled.emit ⟨column, subField, some (.formula f), negateNext⟩ test)
      (Compiled.emit ⟨column, subField, some (.formula g), negateNext⟩ test) := by
  obtain ⟨t, rfl⟩ := htest.eq_formula
  cases negateNext with
  | false => exact .written _ _ _ (Join.all.render_ne h [] [t])
  | true => exact .written _ _ _ (Join.all.render_ne h [] [.not t])

/-- A test and its negation are told apart. -/
theorem toldApart_emit_negated (column : Option (Expression × Bool)) (subField : Option String)
    (negateNext : Bool) {test : Condition} (htest : test.IsFormula) :
    ToldApart d (Compiled.emit ⟨column, subField, none, negateNext⟩ test)
      (Compiled.emit ⟨column, subField, none, !negateNext⟩ test) := by
  obtain ⟨t, rfl⟩ := htest.eq_formula
  cases negateNext with
  | false => exact .written _ _ _ (Formula.render_not_ne t).symm
  | true => exact .written _ _ _ (Formula.render_not_ne t)

/-- Tests that are apart, as conditions. -/
theorem toldApart_emit_apart {test test' : Condition} (h : test.Apart d test')
    (hformulaic : c.Formulaic) : ToldApart d (c.emit test) (c.emit test') := by
  obtain ⟨h⟩ := h
  exact toldApart_emit h.ne hformulaic

/-- Where no column waits, runs are told apart by what they have written. -/
theorem ToldApart.of_column_eq_none (h : ToldApart d c c') (hc : c.column = none) :
    ∃ subField negateNext f g, f.render d ≠ g.render d ∧
      c = ⟨none, subField, some (.formula f), negateNext⟩ ∧
      c' = ⟨none, subField, some (.formula g), negateNext⟩ := by
  cases h with
  | written column subField negateNext h =>
    cases hc
    exact ⟨_, _, _, _, h, rfl, rfl⟩
  | held => cases hc

/-- No column waits once the one that does is tested. -/
theorem column_of_flushes (h : Compiled.Flushes c r) : r.column = none := by cases h <;> rfl

/-- Runs that are told apart stay so when a column that waits is tested. -/
theorem ToldApart.flush (h : ToldApart d c c') (hflush : Compiled.Flushes c r) :
    ∃ r', Compiled.Flushes c' r' ∧ ToldApart d r r' := by
  cases hflush with
  | none subField condition negateNext =>
    cases h with
    | written _ _ _ h => exact ⟨_, .none _ _ _, .written _ _ _ h⟩
  | column e numeric condition negateNext =>
    cases h with
    | written _ _ _ h =>
      exact ⟨_, .column _ _ _ _, toldApart_emit_written _ _ _ h (Condition.isFormula_formula _)⟩
    | held _ _ _ hformulaic h =>
      exact ⟨_, .column _ _ _ _, toldApart_emit_apart (.formula (.eqLeft h _)) hformulaic⟩

/-- Joining conditions to what has been written does not make up for a difference. -/
theorem ToldApart.join {subField : Option String} {w : Condition} {negateNext : Bool}
    (h : ToldApart d ⟨none, subField, some w, negateNext⟩ r) (j : Join) {parts : List Condition}
    (hparts : .const j.decisive ∉ parts) : ∃ w', r = ⟨none, subField, some w', negateNext⟩ ∧
      ToldApart d ⟨none, subField, some (j.combine (w :: parts)), negateNext⟩
        ⟨none, subField, some (j.combine (w' :: parts)), negateNext⟩ := by
  obtain ⟨_, _, f, g, hne, heq, rfl⟩ := h.of_column_eq_none rfl
  cases heq
  refine ⟨_, rfl, ?_⟩
  rw [j.combine_cons hparts, j.combine_cons hparts]
  exact .written _ _ _ (j.render_ne hne [] _)

/-- Negating what has been written does not make up for a difference. -/
theorem ToldApart.not {subField : Option String} {w : Condition} {negateNext : Bool}
    (h : ToldApart d ⟨none, subField, some w, negateNext⟩ r) :
    ∃ w', r = ⟨none, subField, some w', negateNext⟩ ∧
      ToldApart d ⟨none, subField, some w.not, negateNext⟩
        ⟨none, subField, some w'.not, negateNext⟩ := by
  obtain ⟨_, _, f, g, hne, heq, rfl⟩ := h.of_column_eq_none rfl
  cases heq
  exact ⟨_, rfl, .written _ _ _ (Formula.render_not_injective hne)⟩

/-- **Runs that are told apart stay so.** -/
theorem ToldApart.step (h : ToldApart d c c') (htelling : effect.Telling d) (hstep : effect.Step c r) :
    ∃ r', effect.Step c' r' ∧ ToldApart d r r' := by
  cases hstep with
  | column name subField condition negateNext =>
    cases h with
    | written _ _ _ h => exact ⟨_, .column _ _ _ _, .written _ _ _ h⟩
  | field name column condition negateNext =>
    cases h with
    | written _ _ _ h => exact ⟨_, .field _ _ _ _, .written _ _ _ h⟩
    | held _ _ _ hformulaic h => exact ⟨_, .field _ _ _ _, .held _ _ _ hformulaic h⟩
  | reshape shape numeric' e numeric condition negateNext =>
    cases h with
    | written _ _ _ h => exact ⟨_, .reshape _ _ _ _ _ _, .written _ _ _ h⟩
    | held _ _ _ hformulaic h =>
      exact ⟨_, .reshape _ _ _ _ _ _, .held _ _ _ hformulaic (htelling _ _ _ h)⟩
  | test test e numeric subField condition negateNext =>
    cases h with
    | written _ _ _ h =>
      exact ⟨_, .test _ _ _ _ _ _, toldApart_emit_written _ _ _ h ((htelling numeric).1 e)⟩
    | held _ _ _ hformulaic h =>
      exact ⟨_, .test _ _ _ _ _ _, toldApart_emit_apart ((htelling numeric).2 _ _ h) hformulaic⟩
  | join j parts hflush =>
    obtain ⟨r', hflush', htold⟩ := h.flush hflush
    obtain rfl := column_of_flushes hflush
    obtain ⟨w', rfl, hjoined⟩ := htold.join j htelling
    exact ⟨_, .join j parts hflush', hjoined⟩
  | negateWritten hflush =>
    obtain ⟨r', hflush', htold⟩ := h.flush hflush
    obtain rfl := column_of_flushes hflush
    obtain ⟨w', rfl, hnegated⟩ := htold.not
    exact ⟨_, .negateWritten hflush', hnegated⟩
  | negateNext subField negateNext => cases h

/-- A pending negation is written with the test of a column that waits. -/
theorem Pending.flush (h : Pending c c') (hflush : Compiled.Flushes c r)
    (hwritten : r.condition ≠ none) :
    ∃ r', Compiled.Flushes c' r' ∧ c.column.isSome = true ∧ ToldApart d r r' := by
  obtain ⟨column, subField, negateNext⟩ := h
  cases hflush with
  | none => exact absurd rfl hwritten
  | column e numeric =>
    exact ⟨_, .column _ _ _ _, rfl, toldApart_emit_negated _ _ _ (Condition.isFormula_formula _)⟩

/-- **A pending negation stays pending** while a column is selected and changed. Otherwise a test is
    written, and the runs are told apart. -/
theorem Pending.step (h : Pending c c') (htelling : effect.Telling d) (hstep : effect.Step c r) :
    ∃ r', effect.Step c' r' ∧
      ((effect.shapes = true ∧ r.column.isSome = true ∧ Pending r r') ∨
        (effect.shapes = false ∧ effect.negates = true ∧ c.column = none ∧ r.column = none ∧
          Pending r r') ∨
        (effect.shapes = false ∧ (effect.negates = true → c.column.isSome = true) ∧
          ToldApart d r r')) := by
  have hpending := h
  obtain ⟨column, subField, negateNext⟩ := h
  cases hstep with
  | column name => exact ⟨_, .column _ _ _ _, .inl ⟨rfl, rfl, .mk _ _ _⟩⟩
  | field name => exact ⟨_, .field _ _ _ _, .inl ⟨rfl, rfl, .mk _ _ _⟩⟩
  | reshape shape => exact ⟨_, .reshape _ _ _ _ _ _, .inl ⟨rfl, rfl, .mk _ _ _⟩⟩
  | test test e numeric =>
    exact ⟨_, .test _ _ _ _ _ _, .inr (.inr ⟨rfl, nofun,
      toldApart_emit_negated _ _ _ ((htelling numeric).1 e)⟩)⟩
  | join j parts hflush =>
    obtain ⟨r', hflush', hcolumn, htold⟩ := hpending.flush (d := d) hflush nofun
    obtain rfl := column_of_flushes hflush
    obtain ⟨w', rfl, hjoined⟩ := htold.join j htelling
    exact ⟨_, .join j parts hflush', .inr (.inr ⟨rfl, nofun, hjoined⟩)⟩
  | negateWritten hflush =>
    obtain ⟨r', hflush', hcolumn, htold⟩ := hpending.flush (d := d) hflush nofun
    obtain rfl := column_of_flushes hflush
    obtain ⟨w', rfl, hnegated⟩ := htold.not
    exact ⟨_, .negateWritten hflush', .inr (.inr ⟨rfl, fun _ => hcolumn, hnegated⟩)⟩
  | negateNext => exact ⟨_, .negateNext _ _, .inr (.inl ⟨rfl, rfl, rfl, rfl, .mk _ _ _⟩)⟩

end Pairs

/-! ## 2. Queues -/

/-- Whether a queue writes no test, once a column waits or before: it selects a column and changes it,
    after any number of negations. -/
def untested {M : Type → Type} : Bool → List (Entry M) → Bool
  | _, [] => true
  | waiting, entry :: rest =>
    (entry.shapes && untested true rest) || (entry.negates && !waiting && untested false rest)

section Queues

variable {d : Dialect} {scope : Scope} {s s' : σ} {c c' r : Compiled} {q : List (Entry (Stateful σ))}

theorem ToldApart.subField_eq (h : ToldApart d c c') : c'.subField = c.subField := by cases h <;> rfl

/-- **Runs that are told apart stay so to their ends.** -/
theorem ToldApart.run (hq : ∀ entry ∈ q, Undecided scope entry) (h : ToldApart d c c')
    (hrun : on (compileQueue scope c q) s = (.ok r, s')) :
    ∃ r', on (compileQueue scope c' q) s = (.ok r', s') ∧ ToldApart d r r' := by
  induction q generalizing c c' s with
  | nil =>
    rw [compileQueue] at hrun
    obtain ⟨rfl, rfl⟩ := on_pure_eq_ok.mp hrun
    exact ⟨c', by rw [compileQueue]; rfl, h⟩
  | cons entry rest ih =>
    obtain ⟨hentry, hrest⟩ := List.forall_mem_cons.mp hq
    obtain ⟨c₁, s₁, hc₁, hrun⟩ := on_compileQueue_cons.mp hrun
    obtain ⟨effect, hdoes, hstep⟩ := compileEntry_does hentry hc₁
    obtain ⟨c₁', hstep', htold⟩ := h.step (hdoes.telling d) hstep
    obtain ⟨r', hr', htold'⟩ := ih hrest htold hrun
    exact ⟨r', on_compileQueue_cons.mpr ⟨c₁', s₁, hdoes.runs h.subField_eq hstep', hr'⟩, htold'⟩

/-- **A pending negation is pending at the end of a queue that writes no test,** and otherwise the runs
    are told apart. -/
theorem Pending.run (hq : ∀ entry ∈ q, Undecided scope entry) (h : Pending c c')
    (hrun : on (compileQueue scope c q) s = (.ok r, s')) :
    ∃ r', on (compileQueue scope c' q) s = (.ok r', s') ∧
      ((untested c.column.isSome q = true ∧ Pending r r') ∨
        (untested c.column.isSome q = false ∧ ToldApart d r r')) := by
  induction q generalizing c c' s with
  | nil =>
    rw [compileQueue] at hrun
    obtain ⟨rfl, rfl⟩ := on_pure_eq_ok.mp hrun
    exact ⟨c', by rw [compileQueue]; rfl, .inl ⟨rfl, h⟩⟩
  | cons entry rest ih =>
    obtain ⟨hentry, hrest⟩ := List.forall_mem_cons.mp hq
    obtain ⟨c₁, s₁, hc₁, hrun⟩ := on_compileQueue_cons.mp hrun
    obtain ⟨effect, hdoes, hstep⟩ := compileEntry_does hentry hc₁
    obtain ⟨c₁', hstep', hcases⟩ := h.step (hdoes.telling d) hstep
    have hsub : c'.subField = c.subField := by cases h; rfl
    have hc₁' := hdoes.runs hsub hstep'
    rw [hdoes.shapes, hdoes.negates] at hcases
    -- The negation stays pending behind a column that is changed and behind another negation. Behind
    -- anything else it has been written.
    rcases hcases with ⟨hkind, hcolumn, hpending⟩ | ⟨hkind, hnegates, hcolumn, hcolumn₁, hpending⟩ |
      ⟨hkind, hnegates, htold⟩
    · obtain ⟨r', hr', hend⟩ := ih hrest hpending hrun
      refine ⟨r', on_compileQueue_cons.mpr ⟨c₁', s₁, hc₁', hr'⟩, ?_⟩
      simpa [untested, hkind, Entry.negates_of_shapes hkind, hcolumn] using hend
    · obtain ⟨r', hr', hend⟩ := ih hrest hpending hrun
      refine ⟨r', on_compileQueue_cons.mpr ⟨c₁', s₁, hc₁', hr'⟩, ?_⟩
      simpa [untested, hkind, hnegates, hcolumn, hcolumn₁] using hend
    · obtain ⟨r', hr', htold'⟩ := htold.run hrest hrun
      refine ⟨r', on_compileQueue_cons.mpr ⟨c₁', s₁, hc₁', hr'⟩, .inr ⟨?_, htold'⟩⟩
      simp only [untested, hkind, Bool.false_and, Bool.false_or, Bool.and_eq_false_iff,
        Bool.not_eq_false']
      cases hnot : entry.negates with
      | false => exact .inl (.inl rfl)
      | true => exact .inl (.inr (hnegates hnot))

end Queues

/-! ## 3. Ends of queues -/

/-- Conditions that differ as they are written. -/
inductive Condition.Differs (d : Dialect) : Condition → Condition → Prop
  | formula {f g : Formula} (h : f.render d ≠ g.render d) : Differs d (.formula f) (.formula g)

/-- What two beginnings come to: the same, or something else. -/
inductive Carried {α : Type} (same : Prop) (other : α → α → Prop) : α → α → Prop
  | same (h : same) (a : α) : Carried same other a a
  | other (h : ¬same) {a b : α} (hab : other a b) : Carried same other a b

namespace Carried

variable {α β : Type} {same : Prop} {R : α → α → Prop} {S : β → β → Prop} {a a' : α} {b : β}

/-- What is made of both is the same, or something else. -/
theorem map (f : α → β) (h : Carried same R a a') (hf : R a a' → S (f a) (f a')) :
    Carried same S (f a) (f a') := by
  cases h with
  | same h a => exact .same h (f a)
  | other h hab => exact .other h (hf hab)

/-- What both lead to is the same, or something else. -/
theorem leads (leads : α → β → Prop) (h : Carried same R a a') (hb : leads a b)
    (hother : R a a' → ∃ b', leads a' b' ∧ S b b') : ∃ b', leads a' b' ∧ Carried same S b b' := by
  cases h with
  | same h a => exact ⟨b, hb, .same h b⟩
  | other h hab =>
    obtain ⟨b', hb', hs⟩ := hother hab
    exact ⟨b', hb', .other h hs⟩

end Carried

section Ends

variable {d : Dialect} {scope : Scope} {s s' : σ} {c c' : Compiled} {q : List (Entry (Stateful σ))}

/-- A value does not say that a negation is pending. -/
theorem Pending.toTerm_eq (h : Pending c c') : c'.toTerm = c.toTerm := by
  obtain ⟨_ | _, _ | _, _⟩ := h <;> rfl

theorem ToldApart.toTerm (h : ToldApart d c c') {t : Term} (ht : c.toTerm = .ok t) :
    ∃ t', c'.toTerm = .ok t' ∧ t.Apart d t' := by
  cases h with
  | written column subField _ h =>
    obtain - | column := column
    · obtain - | field := subField
      · cases ht
        exact ⟨_, rfl, .expression (.truth h) false⟩
      · cases ht
    · cases subField <;> cases ht
  | @held numeric subField _ e e' condition _ h =>
    obtain - | field := subField
    · obtain - | w := condition
      · cases ht
        exact ⟨_, rfl, .expression h numeric⟩
      · cases ht
    · cases ht

theorem ToldApart.toCondition (h : ToldApart d c c') {condition : Condition}
    (hcondition : c.toCondition = .ok condition) :
    ∃ condition', c'.toCondition = .ok condition' ∧ condition.Differs d condition' := by
  obtain ⟨c₁, hflush, hcondition⟩ := bind_eq_ok.mp hcondition
  rw [Compiled.flush_eq_ok] at hflush
  obtain ⟨c₁', hflush', htold⟩ := h.flush hflush
  obtain ⟨_, _, f, g, hne, rfl, rfl⟩ := htold.of_column_eq_none (column_of_flushes hflush)
  cases hcondition
  exact ⟨.formula g, bind_eq_ok.mpr ⟨_, Compiled.flush_eq_ok.mpr hflush', rfl⟩, .formula hne⟩

/-- **A negation in front of a value is dropped exactly when the queue writes no test.** -/
theorem compileTerm_negated {source : Source (Stateful σ)} (hrow : source.isRow scope = true)
    (hq : ∀ entry ∈ q, Undecided scope entry) {t : Term}
    (h : on (compileTerm scope (.node source q)) s = (.ok t, s')) :
    ∃ t', on (compileTerm scope (.node source (.not :: q))) s = (.ok t', s') ∧
      Carried (untested false q = true) (Term.Apart d) t t' := by
  obtain ⟨c, hc, ht⟩ := (compileTerm_node hrow).mp h
  obtain ⟨c', hc', hend⟩ := (Pending.mk none none false).run (d := d) hq hc
  have hnot : on (compileQueue scope {} (.not :: q)) s = (.ok c', s') :=
    on_compileQueue_cons.mpr ⟨_, s, by rw [compileEntry]; rfl, hc'⟩
  rcases hend with ⟨hsame, hpending⟩ | ⟨hother, htold⟩
  · exact ⟨t, (compileTerm_node hrow).mpr ⟨c', hnot, hpending.toTerm_eq.trans ht⟩, .same hsame t⟩
  · obtain ⟨t', ht', hapart⟩ := htold.toTerm ht
    exact ⟨t', (compileTerm_node hrow).mpr ⟨c', hnot, ht'⟩, .other (by simpa using hother) hapart⟩

end Ends

/-! ## 4. Places -/

/-- An operation that takes its operands as values. -/
inductive ValueUse where
  | eq
  | ne
  | ordered (relation : Relation)
  | arith (op : Arith)
deriving DecidableEq, Repr

variable {M : Type → Type}

/-- The operation, on its operands. -/
def ValueUse.entry : ValueUse → List (Operand M) → Entry M
  | .eq => .eq
  | .ne => .ne
  | .ordered relation => .ordered relation
  | .arith op => .arith op

/-- A queue on the row with a gap among the operands of one of its operations. -/
structure Gap (M : Type → Type) (scope : Scope) where
  /-- What the queue is on. -/
  source : Source M
  /-- It is the row under test. -/
  isRow : source.isRow scope = true
  /-- The operations before. -/
  before : List (Entry M)
  /-- The operands before the gap. -/
  left : List (Operand M)
  /-- The operands behind the gap. -/
  right : List (Operand M)
  /-- The operations behind. -/
  behind : List (Entry M)

/-- The queue with an operand in the gap. -/
def Gap.fill {scope : Scope} (gap : Gap M scope) (entry : List (Operand M) → Entry M)
    (x : Operand M) : Operand M :=
  .node gap.source (gap.before ++ entry (gap.left ++ x :: gap.right) :: gap.behind)

/-- **A place for a value in a filter:** an operand of a comparison or of arithmetic, in a queue on the
    row that may itself be an operand of such an operation, or of one that joins conditions. -/
inductive Place (M : Type → Type) (scope : Scope) where
  /-- Right among the operands. -/
  | here (use : ValueUse) (gap : Gap M scope)
  /-- In a value among the operands. -/
  | inValue (use : ValueUse) (gap : Gap M scope) (inner : Place M scope)
  /-- In a condition among the operands. -/
  | inCondition (j : Join) (gap : Gap M scope) (inner : Place M scope)

/-- The filter with an operand in the place. -/
def Place.fill {scope : Scope} : Place M scope → Operand M → Operand M
  | .here use gap, x => gap.fill use.entry x
  | .inValue use gap inner, x => gap.fill use.entry (inner.fill x)
  | .inCondition j gap inner, x => gap.fill j.entry (inner.fill x)

/-- No truth value decides what is compiled around a gap. -/
structure Gap.Undecided {scope : Scope} (gap : Gap (Stateful σ) scope) : Prop where
  before : ∀ entry ∈ gap.before, Sql.Undecided scope entry
  behind : ∀ entry ∈ gap.behind, Sql.Undecided scope entry

/-- **No truth value decides** what is compiled around a place. -/
def Place.Undecided {scope : Scope} : Place (Stateful σ) scope → Prop
  | .here _ gap => gap.Undecided
  | .inValue _ gap inner => gap.Undecided ∧ inner.Undecided
  | .inCondition j gap inner =>
    gap.Undecided ∧ Sql.Undecided scope (j.entry (gap.left ++ gap.right)) ∧ inner.Undecided

section Gaps

variable (d : Dialect) (scope : Scope) (same : Prop)

/-- Operands that are the same as values, or apart. -/
def AsValues (x x' : Operand (Stateful σ)) : Prop :=
  ∀ s t s', on (compileTerm scope x) s = (.ok t, s') →
    ∃ t', on (compileTerm scope x') s = (.ok t', s') ∧ Carried same (Term.Apart d) t t'

/-- Operands that are the same as conditions, or different. -/
def AsConditions (x x' : Operand (Stateful σ)) : Prop :=
  ∀ s condition s', on (compileCondition scope x) s = (.ok condition, s') →
    ∃ condition', on (compileCondition scope x') s = (.ok condition', s') ∧
      Carried same (Condition.Differs d) condition condition'

variable {d scope same} {s s' : σ} {c r : Compiled} {x x' : Operand (Stateful σ)}
  {left right : List (Operand (Stateful σ))}

/-- An operand on the row is no plain value. -/
theorem not_on_plainValues {command : String} (hrow : isRowOperand scope x = true)
    {values : List Value} :
    on (plainValues scope command (left ++ x :: right)) s ≠ (.ok values, s') := fun h => by
  rw [plainValues_eq_mapM] at h
  obtain ⟨-, s₁, v, s₂, -, -, hv, -, -⟩ := on_mapM_split.mp h
  rw [plainValue, if_pos hrow] at hv
  cases hv

/-- What is made of the column that waits and of terms, one of which is another. -/
theorem terms_carried {command : String} (make : Expression → Bool → Compiled → List Term → Compiled)
    (hmake : ∀ e numeric ls rs {t t' : Term}, t.Apart d t' →
      ToldApart d (make e numeric { c with column := none } (ls ++ t :: rs))
        (make e numeric { c with column := none } (ls ++ t' :: rs)))
    (hx : AsValues d scope same x x')
    (h : on (do
      let (e, numeric, c) ← ofOutcome (c.takeColumn command)
      let terms ← compileTerms scope (left ++ x :: right)
      return make e numeric c terms) s = (.ok r, s')) :
    ∃ r', on (do
      let (e, numeric, c) ← ofOutcome (c.takeColumn command)
      let terms ← compileTerms scope (left ++ x' :: right)
      return make e numeric c terms) s = (.ok r', s') ∧ Carried same (ToldApart d) r r' := by
  obtain ⟨e, numeric, hcolumn, hsub, h⟩ := on_takeColumn_bind.mp h
  obtain ⟨terms, s₁, hterms, h⟩ := on_bind_eq_ok.mp h
  obtain ⟨rfl, rfl⟩ := on_pure_eq_ok.mp h
  rw [compileTerms_eq_mapM] at hterms
  obtain ⟨ls, s₂, t, s₃, rs, hls, ht, hrs, rfl⟩ := on_mapM_split.mp hterms
  obtain ⟨t', ht', hcarried⟩ := hx _ _ _ ht
  have hterms' : on (compileTerms scope (left ++ x' :: right)) s = (.ok (ls ++ t' :: rs), s₁) := by
    rw [compileTerms_eq_mapM]
    exact on_mapM_split.mpr ⟨ls, s₂, t', s₃, rs, hls, ht', hrs, rfl⟩
  refine ⟨_, on_takeColumn_bind.mpr ⟨e, numeric, hcolumn, hsub,
    on_bind_eq_ok.mpr ⟨_, s₁, hterms', rfl⟩⟩, ?_⟩
  exact hcarried.map (fun t => make e numeric { c with column := none } (ls ++ t :: rs))
    (hmake e numeric ls rs)

/-- Equality tests of which one has another operand. -/
theorem equality_carried (negated : Bool) (hc : c.Formulaic) (hrow : isRowOperand scope x = true)
    (hx : AsValues d scope same x x')
    (h : on (compileEntry scope c (equalityEntry negated (left ++ x :: right))) s = (.ok r, s')) :
    ∃ r', on (compileEntry scope c (equalityEntry negated (left ++ x' :: right))) s = (.ok r', s') ∧
      Carried same (ToldApart d) r r' := by
  cases hsub : c.subField with
  | some field =>
    rw [compileEntry_equality_field hsub] at h
    obtain ⟨e, numeric, -, -, h⟩ := on_takeColumn_bind.mp h
    obtain ⟨values, s₁, hvalues, -⟩ := on_bind_eq_ok.mp h
    exact absurd hvalues (not_on_plainValues hrow)
  | none =>
    rw [compileEntry_equality_column hsub] at h ⊢
    refine terms_carried (fun e numeric c terms =>
      c.emit (.any (terms.map (equalityTest (.expression e numeric) negated))))
      (fun e numeric ls rs t t' hapart => toldApart_emit_apart ?_ hc) hx h
    exact any_apart_right (equalityTest_isFormula _ _) (equalityTest_right hapart _ negated) ls rs

/-- **An operation on values keeps another operand apart.** -/
theorem ValueUse.carried (use : ValueUse) (hc : c.Formulaic) (hrow : isRowOperand scope x = true)
    (hx : AsValues d scope same x x')
    (h : on (compileEntry scope c (use.entry (left ++ x :: right))) s = (.ok r, s')) :
    ∃ r', on (compileEntry scope c (use.entry (left ++ x' :: right))) s = (.ok r', s') ∧
      Carried same (ToldApart d) r r' := by
  cases use with
  | eq => exact equality_carried false hc hrow hx h
  | ne => exact equality_carried true hc hrow hx h
  | ordered relation =>
    rw [ValueUse.entry, compileEntry] at h ⊢
    exact terms_carried (fun e numeric c terms =>
      c.emit (.all (chainTests relation (.expression e numeric :: terms))))
      (fun e numeric ls rs t t' hapart =>
        toldApart_emit_apart (all_chainTests_right hapart relation _ ls rs) hc) hx h
  | arith op =>
    rw [ValueUse.entry, compileEntry] at h ⊢
    exact terms_carried (fun e numeric c terms =>
      { c with column := some (terms.foldl (fun acc t => Expression.arith op acc t.asNumber)
        (Term.expression e numeric).asNumber, true) })
      (fun e numeric ls rs t t' hapart => .held _ _ _ hc (foldl_arith_right hapart op _ ls rs)) hx h

/-- **An operation that joins conditions keeps another operand different.** -/
theorem Join.carried (j : Join) (hc : c.Formulaic)
    (hothers : Undecided scope (j.entry (left ++ right))) (hx : AsConditions d scope same x x')
    (h : on (compileEntry scope c (j.entry (left ++ x :: right))) s = (.ok r, s')) :
    ∃ r', on (compileEntry scope c (j.entry (left ++ x' :: right))) s = (.ok r', s') ∧
      Carried same (ToldApart d) r r' := by
  rw [compileEntry_join] at h ⊢
  obtain ⟨c₁, hflush, h⟩ := on_flush_bind.mp h
  have hformulaic := hc.flush hflush
  obtain ⟨column, subField, - | (f | b), negateNext⟩ := c₁
  · cases h
  · obtain ⟨parts, s₁, hparts, h⟩ := on_bind_eq_ok.mp h
    obtain ⟨rfl, rfl⟩ := on_pure_eq_ok.mp h
    obtain ⟨ls, s₂, p, s₃, rs, hls, hp, hrs, rfl⟩ := on_mapM_split.mp hparts
    obtain ⟨p', hp', hcarried⟩ := hx _ _ _ hp
    refine ⟨_, on_flush_bind.mpr ⟨_, hflush, on_bind_eq_ok.mpr ⟨_, s₁,
      on_mapM_split.mpr ⟨ls, s₂, p', s₃, rs, hls, hp', hrs, rfl⟩, rfl⟩⟩, ?_⟩
    refine hcarried.map (fun p => Compiled.mk column subField
      (some (j.combine (.formula f :: (ls ++ p :: rs)))) negateNext) fun hdiffers => ?_
    obtain ⟨hne⟩ := hdiffers
    obtain ⟨hleft, hright⟩ := List.forall_mem_append.mp (undecided_join.mp hothers)
    have hbefore : Condition.const j.decisive ∉ Condition.formula f :: ls :=
      List.not_mem_cons_of_ne_of_not_mem nofun (notMem_of_undecided hleft hls)
    have hbehind := notMem_of_undecided hright hrs
    rw [← List.cons_append, ← List.cons_append, j.combine_split hbefore hbehind,
      j.combine_split hbefore hbehind]
    exact .written _ _ _ (j.render_ne hne _ _)
  · exact absurd rfl (hformulaic b)

/-! ### Filled places -/

/-- **What a gap keeps apart stays apart to the end of the queue.** -/
theorem Gap.carried {gap : Gap (Stateful σ) scope} (hgap : gap.Undecided)
    {entry : List (Operand (Stateful σ)) → Entry (Stateful σ)}
    (hentry : ∀ c r s s', c.Formulaic →
      on (compileEntry scope c (entry (gap.left ++ x :: gap.right))) s = (.ok r, s') →
      ∃ r', on (compileEntry scope c (entry (gap.left ++ x' :: gap.right))) s = (.ok r', s') ∧
        Carried same (ToldApart d) r r') :
    AsValues d scope same (gap.fill entry x) (gap.fill entry x') ∧
      AsConditions d scope same (gap.fill entry x) (gap.fill entry x') := by
  have hrun {s s' : σ} {r : Compiled} (h : on (compileQueue scope {} (gap.before
      ++ entry (gap.left ++ x :: gap.right) :: gap.behind)) s = (.ok r, s')) :
      ∃ r', on (compileQueue scope {} (gap.before
        ++ entry (gap.left ++ x' :: gap.right) :: gap.behind)) s = (.ok r', s') ∧
        Carried same (ToldApart d) r r' := by
    obtain ⟨c, s₁, hbefore, h⟩ := on_compileQueue_append.mp h
    obtain ⟨c₁, s₂, hc₁, hbehind⟩ := on_compileQueue_cons.mp h
    have hempty : Compiled.Formulaic {} := fun _ heq => by cases heq
    obtain ⟨c₁', hc₁', hcarried⟩ := hentry c c₁ s₁ s₂ (hempty.run hgap.before hbefore) hc₁
    obtain ⟨r', hr', hend⟩ := hcarried.leads
      (fun c r => on (compileQueue scope c gap.behind) s₂ = (.ok r, s')) hbehind
      fun htold => htold.run hgap.behind hbehind
    exact ⟨r', on_compileQueue_append.mpr
      ⟨c, s₁, hbefore, on_compileQueue_cons.mpr ⟨c₁', s₂, hc₁', hr'⟩⟩, hend⟩
  constructor
  · intro s t s' h
    obtain ⟨r, hr, ht⟩ := (compileTerm_node gap.isRow).mp h
    obtain ⟨r', hr', hcarried⟩ := hrun hr
    obtain ⟨t', ht', hend⟩ := hcarried.leads (fun (r : Compiled) t => r.toTerm = .ok t) ht
      fun htold => htold.toTerm ht
    exact ⟨t', (compileTerm_node gap.isRow).mpr ⟨r', hr', ht'⟩, hend⟩
  · intro s condition s' h
    obtain ⟨r, hr, hcondition⟩ := (compileCondition_node gap.isRow).mp h
    obtain ⟨r', hr', hcarried⟩ := hrun hr
    obtain ⟨condition', hcondition', hend⟩ := hcarried.leads
      (fun (r : Compiled) condition => r.toCondition = .ok condition) hcondition
      fun htold => htold.toCondition hcondition
    exact ⟨condition', (compileCondition_node gap.isRow).mpr ⟨r', hr', hcondition'⟩, hend⟩

theorem Gap.isRowOperand_fill (gap : Gap (Stateful σ) scope)
    (entry : List (Operand (Stateful σ)) → Entry (Stateful σ)) (x : Operand (Stateful σ)) :
    isRowOperand scope (gap.fill entry x) = true := gap.isRow

theorem Place.isRowOperand_fill (place : Place (Stateful σ) scope) (x : Operand (Stateful σ)) :
    isRowOperand scope (place.fill x) = true := by
  cases place <;> exact Gap.isRowOperand_fill _ _ _

/-- **What a place keeps apart stays apart in the whole filter,** by induction on the place. -/
theorem Place.carried (place : Place (Stateful σ) scope) (hplace : place.Undecided)
    (hrow : isRowOperand scope x = true) (hx : AsValues d scope same x x') :
    AsValues d scope same (place.fill x) (place.fill x') ∧
      AsConditions d scope same (place.fill x) (place.fill x') := by
  induction place with
  | here use gap => exact Gap.carried hplace fun _ _ _ _ hc h => use.carried hc hrow hx h
  | inValue use gap inner ih =>
    obtain ⟨hgap, hinner⟩ := hplace
    have hvalues := (ih hinner).1
    exact Gap.carried hgap fun _ _ _ _ hc h => use.carried hc (inner.isRowOperand_fill x) hvalues h
  | inCondition j gap inner ih =>
    obtain ⟨hgap, hothers, hinner⟩ := hplace
    have hconditions := (ih hinner).2
    exact Gap.carried hgap fun _ _ _ _ hc h => j.carried hc hothers hconditions h

/-- **A negation in front of a value is dropped exactly when the queue of the value writes no test.** -/
theorem negated_value_same_iff (d : Dialect) {scope : Scope}
    (place : Place (Stateful σ) (.row :: scope)) {source : Source (Stateful σ)}
    {q : List (Entry (Stateful σ))} (hrow : source.isRow (.row :: scope) = true)
    (hplace : place.Undecided) (hq : ∀ entry ∈ q, Undecided (.row :: scope) entry)
    {condition : Condition} {s s' : σ}
    (h : on (compilePredicate scope (.test (place.fill (.node source q)))) s = (.ok condition, s')) :
    ∃ condition', on (compilePredicate scope (.test (place.fill (.node source (.not :: q))))) s
        = (.ok condition', s') ∧
      (condition'.text? d = condition.text? d ↔ untested false q = true) := by
  have hoperand : isRowOperand (.row :: scope) (.node source q) = true := hrow
  have hx : AsValues d (.row :: scope) (untested false q = true) (.node source q)
      (.node source (.not :: q)) := fun _ _ _ => compileTerm_negated hrow hq
  obtain ⟨condition', h', hcarried⟩ := (place.carried hplace hoperand hx).2 _ _ _ h
  rcases hcarried with ⟨hsame, _⟩ | ⟨hother, ⟨hne⟩⟩
  · exact ⟨condition, h', iff_of_true rfl hsame⟩
  · exact ⟨_, h', iff_of_false (fun heq => hne (Option.some.inj heq).symm) hother⟩

end Gaps

/-- The column `a`. -/
def selectA : Entry (Stateful Unit) := .select (.literal (.string "a"))

/-- Compared with the column `x`. -/
def besideX : Place (Stateful Unit) [.row] :=
  .here .eq ⟨.parameter 0, rfl, [.select (.literal (.string "x"))], [], [], []⟩

/-- A queue on the row, compared with the column `x`. -/
def comparedWithX (q : List (Entry (Stateful Unit))) : Predicate (Stateful Unit) :=
  .test (besideX.fill (.node (.parameter 0) q))

/-- A test is told from its negation. -/
theorem negated_test_differs :
    ∃ condition condition',
      on (compilePredicate [] (comparedWithX [selectA, .eq [.literal (.count 1)]])) ()
        = (.ok condition, ()) ∧
      on (compilePredicate [] (comparedWithX [.not, selectA, .eq [.literal (.count 1)]])) ()
        = (.ok condition', ()) ∧
      condition'.text? .postgres ≠ condition.text? .postgres := by
  have hplace : besideX.Undecided :=
    ⟨List.forall_mem_singleton.mpr trivial, List.forall_mem_nil _⟩
  have hq : ∀ entry ∈ [selectA, .eq [.literal (.count 1)]], Undecided [.row] entry :=
    List.forall_mem_cons.mpr ⟨trivial, List.forall_mem_singleton.mpr (List.cons_ne_nil _ _)⟩
  obtain ⟨condition, h⟩ : ∃ condition, on (compilePredicate [] (comparedWithX
      [selectA, .eq [.literal (.count 1)]])) () = (.ok condition, ()) := ⟨_, rfl⟩
  obtain ⟨condition', hnegated, hsame⟩ := negated_value_same_iff .postgres besideX rfl hplace hq h
  exact ⟨condition, condition', h, hnegated, fun heq => by cases hsame.mp heq⟩

/-- **A negation is dropped** in front of a column that is selected, and nothing else. -/
theorem negation_dropped :
    ∃ condition,
      on (compilePredicate [] (comparedWithX [selectA])) () = (.ok condition, ()) ∧
      on (compilePredicate [] (comparedWithX [.not, selectA])) () = (.ok condition, ()) ∧
      condition.text? .sqlite = some "`x` = `a`" ∧
      condition.text? .postgres = some "\"x\" = \"a\"" :=
  ⟨_, rfl, rfl, rfl, rfl⟩

end Sql

end QueryAlgebra
