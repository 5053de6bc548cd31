import Mathlib.Data.List.Chain
import Mathlib.Data.List.Pairwise
import QueryAlgebra.Query.Evaluate

/-!
# The order of values

Two numbers, two strings or two truth values have an order; no other values do, and so the order is
partial. A comparison tests neighbours in the chain of the current value and the operands. That is
enough: neighbours that have an order are of one kind, and on one kind the order is total, so what
holds of all neighbours holds of every earlier value with every later one.

* `compareLoose_eq_iff`: two values that have an order are equal by it when they are loosely equal.
* `Relation.Between.trans`: the relations of a comparison pass through a chain.
* `Value.chainHolds_iff`, `apply_ordered`: what a comparison answers.
-/

namespace QueryAlgebra

/-! ## 1. Orders and relations -/

/-- What a relation asks of the order of two values. -/
def Relation.Asks : Relation → Ordering → Prop
  | .gt, o => o = .gt
  | .lt, o => o = .lt
  | .ge, o => o ≠ .lt
  | .le, o => o ≠ .gt

theorem Relation.holds_iff {relation : Relation} {o : Ordering} :
    relation.holds o = true ↔ relation.Asks o := by
  cases relation <;> cases o <;> simp [holds, Asks]

/-- On a total order, what a relation asks of neighbours holds of the outer two of three. -/
theorem Relation.Asks.trans {α : Type} [Ord α] [Std.TransOrd α] {relation : Relation} {a b c : α}
    (hab : relation.Asks (compare a b)) (hbc : relation.Asks (compare b c)) :
    relation.Asks (compare a c) := by
  cases relation with
  | gt => exact Std.TransCmp.gt_trans hab hbc
  | lt => exact Std.TransCmp.lt_trans hab hbc
  | ge =>
    have hge := Std.TransCmp.isGE_trans (Ordering.isGE_iff_ne_lt.mpr hab)
      (Ordering.isGE_iff_ne_lt.mpr hbc)
    exact Ordering.isGE_iff_ne_lt.mp hge
  | le =>
    have hle := Std.TransCmp.isLE_trans (Ordering.isLE_iff_ne_gt.mpr hab)
      (Ordering.isLE_iff_ne_gt.mpr hbc)
    exact Ordering.isLE_iff_ne_gt.mp hle

/-- **Equality by the order is loose equality,** of values that have an order. -/
theorem Value.compareLoose_eq_iff {a b : Value} {o : Ordering} (h : a.compareLoose b = some o) :
    o = .eq ↔ a.looseEq b = true := by
  cases a <;> cases b <;> simp only [compareLoose, reduceCtorEq, Option.some.injEq] at h
  all_goals subst h
  · rw [looseEq, Std.compare_eq_iff_eq, beq_iff_eq]
  · rw [looseEq, Number.same, Double.same_iff]
    exact Std.compare_eq_iff_eq
  · rw [looseEq, Std.compare_eq_iff_eq, beq_iff_eq]

/-! ## 2. Chains -/

/-- Two values have an order, and it is what a relation asks for. -/
def Relation.Between (relation : Relation) (a b : Value) : Prop :=
  ∃ o, a.compareLoose b = some o ∧ relation.Asks o

/-- **The relation of a comparison is transitive,** although not all values have an order: values
    that have one with the same value have one with each other. -/
theorem Relation.Between.trans {relation : Relation} {a b c : Value}
    (hab : relation.Between a b) (hbc : relation.Between b c) : relation.Between a c := by
  obtain ⟨o, ho, hab⟩ := hab
  obtain ⟨o', ho', hbc⟩ := hbc
  cases a <;> cases b <;> simp only [Value.compareLoose, reduceCtorEq, Option.some.injEq] at ho
  all_goals
    cases c <;> simp only [Value.compareLoose, reduceCtorEq, Option.some.injEq] at ho'
    subst ho ho'
    exact ⟨_, rfl, hab.trans hbc⟩

instance (relation : Relation) : Trans relation.Between relation.Between relation.Between :=
  ⟨Relation.Between.trans⟩

namespace Value

/-- **Every earlier value of a list stands in a relation to every later one.** -/
def Ordered (relation : Relation) (values : List Value) : Prop :=
  ∀ i j (hij : i < j) (hj : j < values.length), relation.Between values[i] values[j]

theorem chainHolds_iff_isChain {relation : Relation} {values : List Value} :
    chainHolds relation values = true ↔ values.IsChain relation.Between := by
  induction values with
  | nil => simp [chainHolds]
  | cons a rest ih =>
    cases rest with
    | nil => simp [chainHolds]
    | cons b rest =>
      rw [chainHolds, Bool.and_eq_true, ih, List.isChain_cons_cons]
      refine and_congr_left fun _ => ?_
      cases h : a.compareLoose b with
      | none => simp [Relation.Between, h]
      | some o => simp [Relation.Between, h, Relation.holds_iff]

/-- **The test of neighbours is the test of all pairs.** -/
theorem chainHolds_iff {relation : Relation} {values : List Value} :
    chainHolds relation values = true ↔ Ordered relation values := by
  rw [chainHolds_iff_isChain, List.isChain_iff_pairwise, List.pairwise_iff_getElem]
  exact ⟨fun h i j hij hj => h i j (hij.trans hj) hj hij, fun h i j _ hj hij => h i j hij hj⟩

instance (relation : Relation) (values : List Value) : Decidable (Ordered relation values) :=
  decidable_of_iff _ chainHolds_iff

end Value

/-! ## 3. Comparisons -/

/-- **What a comparison answers** once its operands are resolved: whether in the list of the current
    value and the operands every two values have an order, and the earlier stands in the relation to
    the later. By an order that exists, values are equal exactly when they are loosely equal. -/
theorem apply_ordered {M : Type → Type} [Monad M] [MonadExceptOf Error M] (scope : Scope)
    (current : Value) (relation : Relation) (operands : List (Operand M)) :
    (Entry.ordered relation operands).apply scope current = (do
        let values ← resolveAll scope operands
        return .bool (decide (Value.Ordered relation (current :: values)))) ∧
      ∀ (a b : Value) (o : Ordering), a.compareLoose b = some o →
        (o = .eq ↔ a.looseEq b = true) := by
  refine ⟨?_, fun a b o => Value.compareLoose_eq_iff⟩
  have hdecide (values : List Value) :
      Value.chainHolds relation values = decide (Value.Ordered relation values) := by
    rw [Bool.eq_iff_iff, decide_eq_true_iff, Value.chainHolds_iff]
  rw [Entry.apply]
  simp only [hdecide]

/-- Five, as a double. -/
def fivePointZero : Value := .number (.double (.ofInt 5 (by decide)))

/-- Ten is above five and five above two, of numbers in both forms, and five is equal to itself in
    both forms. -/
theorem apply_ordered_mixed :
    (Entry.ordered .gt [.literal fivePointZero, .literal (.count 2)]).apply [] (.count 10)
        = (.ok (.bool true) : Except Error Value) ∧
      (.count 5 : Value).compareLoose fivePointZero = some .eq ∧
      (Ordering.eq = .eq ↔ (Value.count 5).looseEq fivePointZero = true) := by
  obtain ⟨hanswer, hequal⟩ := apply_ordered (M := Except Error) [] (.count 10) .gt
    [.literal fivePointZero, .literal (.count 2)]
  have hpairs : Value.Ordered .gt [.count 10, fivePointZero, .count 2] := by decide +kernel
  have hfive : (Value.count 5).compareLoose fivePointZero = some .eq := by decide +kernel
  refine ⟨?_, hfive, hequal _ _ _ hfive⟩
  rw [hanswer]
  simp only [resolveAll, Operand.resolve, pure_bind, hpairs, decide_true]
  rfl

end QueryAlgebra
