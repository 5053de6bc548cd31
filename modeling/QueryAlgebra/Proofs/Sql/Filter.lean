import QueryAlgebra.Proofs.Sql.Conditions
import QueryAlgebra.Proofs.Sql.KnownAnswers

/-!
# What a compiled filter accepts

A filter of column tests is answered by the evaluator on every row (`Part.holds_eq`), and compiled to
a condition that a database reads with unknowns.

* `compiled_true_iff_holds`: the condition is true on the rows that the evaluator accepts, but for
  those on which the filter is accepted and unknown. No row comes through the condition that the
  evaluator drops.
* `negated_null_accepted`: such rows exist, a null under negation is one.
-/

namespace QueryAlgebra

namespace Sql

/-! ## 1. The evaluator's answer -/

section Evaluation

variable {scope : Scope} {row : Fields}

theorem evaluate_append {M : Type → Type} [Monad M] [LawfulMonad M] [MonadExceptOf Error M]
    (v : Value) (xs ys : List (Entry M)) :
    evaluate scope v (xs ++ ys) = (do evaluate scope (← evaluate scope v xs) ys) := by
  induction xs generalizing v with
  | nil => simp [evaluate]
  | cons entry xs ih =>
    rw [List.cons_append, evaluate, evaluate, bind_assoc]
    congr 1
    funext w
    exact ih w

theorem chainHolds_eq (relation : Relation) (values : List Value) :
    Value.chainHolds relation values
      = (neighbours values).all (fun p => inOrder relation p.1 p.2) := by
  induction values with
  | nil => rfl
  | cons a values ih =>
    cases values with
    | nil => rfl
    | cons b values =>
      rw [Value.chainHolds, ih]
      rfl

theorem foldl_and (b : Bool) (bs : List Bool) :
    (bs.map Value.bool).foldl (fun acc v => if acc.truthy then v else acc) (.bool b)
      = .bool (b && bs.all id) := by
  induction bs generalizing b with
  | nil => simp
  | cons c bs ih =>
    rw [List.map_cons, List.foldl_cons]
    cases b
    · exact ih false
    · rw [if_pos (by rfl), ih c, List.all_cons, Bool.true_and]
      rfl

theorem foldl_or (b : Bool) (bs : List Bool) :
    (bs.map Value.bool).foldl (fun acc v => if acc.truthy then acc else v) (.bool b)
      = .bool (b || bs.any id) := by
  induction bs generalizing b with
  | nil => simp
  | cons c bs ih =>
    rw [List.map_cons, List.foldl_cons]
    cases b
    · rw [if_neg (by decide), ih c, List.any_cons, Bool.false_or]
      rfl
    · exact ih true

theorem resolve_operand (s : Side) :
    Operand.resolve (M := Except Error) (.value (.object row) :: scope) s.operand
      = .ok (s.on row) := by
  cases s with
  | value v => rw [Side.operand, Operand.resolve]; rfl
  | column name =>
    simp [Side.operand, Side.on, Operand.resolve, Source.seed, evaluate, Entry.apply, Value.select,
      Value.field, columnOf]

theorem resolveAll_operands (sides : List Side) :
    resolveAll (M := Except Error) (.value (.object row) :: scope) (sides.map Side.operand)
      = .ok (sides.map (Side.on row)) := by
  induction sides with
  | nil => rw [List.map_nil, resolveAll]; rfl
  | cons s sides ih => simp [resolveAll, resolve_operand, ih]

theorem evaluate_test (t : ColumnTest) :
    evaluate (M := Except Error) (.value (.object row) :: scope) (.object row) t.entries
      = .ok (.bool (t.accepts row)) := by
  obtain ⟨column, comparison, others⟩ := t
  have hselect : (Value.object row).select (.string column) = .ok (columnOf row column) := by
    simp [Value.select, Value.field, columnOf]
  cases comparison <;>
    simp [ColumnTest.entries, ColumnTest.accepts, Comparison.entry, evaluate, Entry.apply,
      Operand.resolve, hselect, resolveAll_operands, chainHolds_eq, ColumnTest.run, Function.comp_def]

mutual

theorem Chain.evaluate_entries (c : Chain) :
    evaluate (M := Except Error) (.value (.object row) :: scope) (.object row) c.entries
      = .ok (.bool (c.accepts row)) := by
  cases c with
  | test t => exact evaluate_test t
  | and first parts =>
    rw [Chain.entries, evaluate_append, Chain.evaluate_entries first, ok_bind]
    simp [evaluate, Entry.apply, Part.resolveAll_operands parts, foldl_and, Chain.accepts]
  | or first parts =>
    rw [Chain.entries, evaluate_append, Chain.evaluate_entries first, ok_bind]
    simp [evaluate, Entry.apply, Part.resolveAll_operands parts, foldl_or, Chain.accepts]
  | not first =>
    rw [Chain.entries, evaluate_append, Chain.evaluate_entries first, ok_bind]
    simp [evaluate, Entry.apply, Chain.accepts, Value.truthy]

theorem Part.resolve_operand (p : Part) :
    Operand.resolve (M := Except Error) (.value (.object row) :: scope) p.operand
      = .ok (.bool (p.accepts row)) := by
  cases p with
  | const b => rw [Part.operand, Operand.resolve]; rfl
  | chain c =>
    simp [Part.operand, Operand.resolve, Source.seed, Chain.evaluate_entries c, Part.accepts]

theorem Part.resolveAll_operands (parts : List Part) :
    resolveAll (M := Except Error) (.value (.object row) :: scope) (Part.operands parts)
      = .ok ((Part.answers row parts).map Value.bool) := by
  cases parts with
  | nil => rw [Part.operands, resolveAll, Part.answers]; rfl
  | cons p parts =>
    simp [Part.operands, resolveAll, Part.answers, Part.resolve_operand p,
      Part.resolveAll_operands parts]

end

/-- **The evaluator has an answer on every row.** -/
theorem Part.holds_eq (p : Part) :
    Predicate.holds (M := Except Error) scope (.object row) (.test p.operand)
      = .ok (p.accepts row) := by
  simp [Predicate.holds, Part.resolve_operand p, Value.truthy]

end Evaluation

/-! ## 2. Rows that a condition lets through -/

/-- **A compiled filter is true on the rows that the evaluator accepts, but for those on which it is
    accepted and unknown.** On every database, for every filter of tests joined by `and`, `or` and
    `not`, and every row whose compared values can be compared: the filter compiles, the evaluator
    has an answer, the condition is true only where that is yes, and it is true wherever that is yes
    unless the filter is unknown. -/
theorem compiled_true_iff_holds {e : Engine} (std : e.Standard) (scope : Scope) {p : Part}
    {row : Fields} (h : ∀ t ∈ p.tests, t.Comparable row) :
    ∃ condition answer,
      compilePredicate (M := Except Error) scope (.test p.operand) = .ok condition ∧
      Predicate.holds (M := Except Error) scope (.object row) (.test p.operand) = .ok answer ∧
      (condition.truth e row = some true → answer = true) ∧
      ((condition.truth e row = some true ↔ answer = true) ↔
        ¬(p.truth row = none ∧ answer = true)) := by
  refine ⟨p.condition, p.accepts row, p.compile_eq, p.holds_eq, ?_, ?_⟩
  · intro htrue
    rw [p.truth_condition std h] at htrue
    exact (p.agrees true htrue).symm
  · rw [p.truth_condition std h]
    constructor
    · rintro hiff ⟨hnone, hanswer⟩
      rw [hiff.mpr hanswer] at hnone
      cases hnone
    · intro hknown
      refine ⟨fun htrue => (p.agrees true htrue).symm, fun hanswer => ?_⟩
      cases htruth : p.truth row with
      | none => exact absurd ⟨htruth, hanswer⟩ hknown
      | some b => rw [p.agrees b htruth, hanswer]

/-- A database that does with numbers and texts what the evaluator does. -/
def plainEngine : Engine where
  numeric v := v
  text v := v
  equal := Value.looseEq
  related := inOrder
  length _ := .null
  substr _ _ _ := .null
  arith _ _ _ := .null
  like _ _ := false

theorem plainEngine_standard : plainEngine.Standard where
  numeric_null := rfl
  numeric_number _ := rfl
  text_null := rfl
  text_string _ := rfl
  equal_number m n := by simp [plainEngine, Value.looseEq]
  equal_string s t := by simp [plainEngine, Value.looseEq]
  related_number _ _ _ := rfl
  related_string _ _ _ := rfl

/-- The filter `select("a").gt(5).not()`. -/
def notAboveFive : Part := .chain (.not (.test ⟨"a", .ordered .gt, [.value (.count 5)]⟩))

/-- The row with a four is let through: it meets no null, so the filter is known there. -/
theorem notAboveFive_four :
    plainEngine.Standard ∧ (∀ t ∈ notAboveFive.tests, t.Comparable [("a", .count 4)]) ∧
      ∃ condition,
        compilePredicate (M := Except Error) [] (.test notAboveFive.operand) = .ok condition ∧
        condition.truth plainEngine [("a", .count 4)] = some true := by
  have hcomparable : ∀ t ∈ notAboveFive.tests, t.Comparable [("a", .count 4)] := by
    intro t ht
    obtain rfl := List.mem_singleton.mp ht
    intro p hp
    obtain rfl := List.mem_singleton.mp hp
    exact Or.inr (Or.inr (Or.inl ⟨_, _, rfl, rfl⟩))
  have htruth : notAboveFive.truth [("a", .count 4)] = some true := by decide +kernel
  have haccepts : notAboveFive.accepts [("a", .count 4)] = true := by decide +kernel
  refine ⟨plainEngine_standard, hcomparable, ?_⟩
  obtain ⟨condition, answer, hcompile, hholds, -, hiff⟩ :=
    compiled_true_iff_holds plainEngine_standard [] hcomparable
  rw [notAboveFive.holds_eq, haccepts] at hholds
  refine ⟨condition, hcompile, (hiff.mpr (fun hnone => ?_)).mpr (Except.ok.inj hholds).symm⟩
  rw [htruth] at hnone
  cases hnone.1

/-- **A null under negation is accepted by the evaluator and lost by the condition:** on a row whose
    column is null the condition is unknown, and the filter accepts it. -/
theorem negated_null_accepted :
    plainEngine.Standard ∧ (∀ t ∈ notAboveFive.tests, t.Comparable [("a", .null)]) ∧
      ∃ condition,
        compilePredicate (M := Except Error) [] (.test notAboveFive.operand) = .ok condition ∧
        condition.truth plainEngine [("a", .null)] = none ∧
        Predicate.holds (M := Except Error) [] (.object [("a", .null)])
          (.test notAboveFive.operand) = .ok true := by
  have hcomparable : ∀ t ∈ notAboveFive.tests, t.Comparable [("a", .null)] := by
    intro t ht
    obtain rfl := List.mem_singleton.mp ht
    intro p hp
    obtain rfl := List.mem_singleton.mp hp
    exact Or.inl rfl
  refine ⟨plainEngine_standard, hcomparable, notAboveFive.condition, notAboveFive.compile_eq, ?_, ?_⟩
  · rw [notAboveFive.truth_condition plainEngine_standard hcomparable]
    decide
  · rw [notAboveFive.holds_eq]
    decide

end Sql

end QueryAlgebra
