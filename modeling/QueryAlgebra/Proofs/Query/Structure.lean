import QueryAlgebra.Proofs.Outcome

/-!
# Structural tests

A pattern is an object: it asks every field it names for a value, and a nested object asks inside
that field. A test by pattern is not run that way. The pattern is flattened to the paths of its
leaves, each path is queued as selections and a comparison, and the comparisons are joined. Both
readings agree, on every pattern and every value.

* `Value.Matches`: what a pattern asks of a value.
* `Value.leaves_all_iff`: flattened, it asks the same.
* `evaluate_leafEntries`, `Predicate.resolve_patternOperand`: what the queue answers.
* `Predicate.test_pattern`: a test by pattern answers whether the value matches, and never fails.
-/

namespace QueryAlgebra

/-! ## 1. Matching -/

/-- **What a pattern asks of a value.** An object asks, for each of its fields, what that field's
    value asks of the field of the same name. Anything else asks for a value loosely equal to it. -/
inductive Value.Matches : Value → Value → Prop
  | leaf {pattern d : Value} (hleaf : ∀ fields, pattern ≠ .object fields)
      (heq : d.looseEq pattern = true) : Value.Matches pattern d
  | object {fields : Fields} {d : Value}
      (hfields : ∀ name v, (name, v) ∈ fields → Value.Matches v (d.field name)) :
      Value.Matches (.object fields) d

namespace Value

theorem matches_object {fields : Fields} {d : Value} :
    (object fields).Matches d ↔ ∀ name v, (name, v) ∈ fields → v.Matches (d.field name) := by
  constructor
  · intro h
    cases h with
    | leaf hleaf => exact absurd rfl (hleaf fields)
    | object hfields => exact hfields
  · exact Matches.object

theorem matches_leaf {pattern d : Value} (hleaf : ∀ fields, pattern ≠ .object fields) :
    pattern.Matches d ↔ d.looseEq pattern = true := by
  constructor
  · intro h
    cases h with
    | leaf _ heq => exact heq
    | object => exact absurd rfl (hleaf _)
  · exact Matches.leaf hleaf

/-- The field that a pattern asks is the one that a selection by name answers. -/
theorem select_name (d : Value) (name : String) : d.select (.string name) = .ok (d.field name) := by
  cases d <;> simp [select, field]

/-! ## 2. Leaves -/

/-- Whether a leaf is found in a value: at the end of its path is a value equal to it. -/
def hasLeaf (d : Value) (leaf : List String × Value) : Bool := (d.path leaf.1).looseEq leaf.2

theorem leaves_of_not_object {v : Value} (hleaf : ∀ fields, v ≠ .object fields) :
    leaves v = [([], v)] := by
  cases v with
  | object fields => exact absurd rfl (hleaf fields)
  | _ => rfl

mutual

/-- **The leaves ask what the pattern asks.** -/
theorem leaves_all_iff (pattern d : Value) :
    (leaves pattern).all d.hasLeaf = true ↔ pattern.Matches d := by
  match pattern with
  | .object fields =>
    rw [leaves, matches_object]
    exact leavesOfFields_all_iff fields d
  | .null | .bool _ | .number _ | .string _ | .array _ =>
    rw [leaves_of_not_object (by simp), matches_leaf (by simp), List.all_cons, List.all_nil,
      Bool.and_true]
    rfl

/-- The leaves of fields ask what the fields ask. -/
theorem leavesOfFields_all_iff (fields : List (String × Value)) (d : Value) :
    (leavesOfFields fields).all d.hasLeaf = true ↔
      ∀ name v, (name, v) ∈ fields → v.Matches (d.field name) := by
  match fields with
  | [] => simp [leavesOfFields]
  | (name, v) :: rest =>
    have hv : ((leaves v).map fun leaf => (name :: leaf.1, leaf.2)).all d.hasLeaf = true ↔
        v.Matches (d.field name) := by
      rw [List.all_map, ← leaves_all_iff v (d.field name)]
      rfl
    rw [leavesOfFields, List.all_append, Bool.and_eq_true, hv, leavesOfFields_all_iff rest d]
    constructor
    · rintro ⟨hhead, hrest⟩ name' v' hmem
      rcases List.mem_cons.mp hmem with heq | hmem
      · cases heq
        exact hhead
      · exact hrest name' v' hmem
    · intro h
      refine ⟨h name v List.mem_cons_self, fun name' v' hmem => ?_⟩
      exact h name' v' (List.mem_cons_of_mem _ hmem)

end

end Value

/-- The test that is run on leaves is the one that a pattern asks for. -/
theorem Predicate.patternHolds_iff (fields : Fields) (d : Value) :
    patternHolds fields d = true ↔ (Value.object fields).Matches d := by
  rw [Value.matches_object]
  exact Value.leavesOfFields_all_iff fields d

instance (fields : Fields) (d : Value) : Decidable ((Value.object fields).Matches d) :=
  decidable_of_iff _ (Predicate.patternHolds_iff fields d)

/-! ## 3. The queue of a pattern -/

section Queue

variable {M : Type → Type} [Monad M] [MonadExceptOf Error M] [LawfulMonad M]
variable {scope : Scope}

theorem evaluate_append (first rest : List (Entry M)) (v : Value) :
    evaluate scope v (first ++ rest)
      = evaluate scope v first >>= fun w => evaluate scope w rest := by
  induction first generalizing v with
  | nil => rw [List.nil_append, evaluate, pure_bind]
  | cons entry first ih =>
    rw [List.cons_append, evaluate, evaluate, bind_assoc]
    exact bind_congr fun w => ih w

/-- Selections by name follow the path. -/
theorem evaluate_selects (names : List String) (v : Value) :
    evaluate scope v (names.map fun name => .select (.literal (.string name)))
      = (pure (v.path names) : M Value) := by
  induction names generalizing v with
  | nil => rw [List.map_nil, evaluate, Value.path, List.foldl_nil]
  | cons name names ih =>
    rw [List.map_cons, evaluate, Entry.apply, Operand.resolve, pure_bind, Value.select_name,
      ofOutcome, pure_bind, ih]
    rfl

/-- The queue of a leaf answers whether it is found. -/
theorem evaluate_leafEntries (leaf : List String × Value) (v : Value) :
    evaluate scope v (Predicate.leafEntries leaf) = (pure (.bool (v.hasLeaf leaf)) : M Value) := by
  rw [Predicate.leafEntries, evaluate_append, evaluate_selects, pure_bind, evaluate, Entry.apply,
    resolveAll, resolveAll, Operand.resolve]
  simp only [pure_bind, evaluate, List.any_cons, List.any_nil, Bool.or_false]
  rfl

/-- Truth values joined one after the other: all of them hold. -/
theorem foldl_and_bool (bs : List Bool) (b : Bool) :
    (bs.map Value.bool).foldl (fun acc v => if acc.truthy then v else acc) (.bool b)
      = .bool (b && bs.all id) := by
  induction bs generalizing b with
  | nil => simp
  | cons b' bs ih =>
    rw [List.map_cons, List.foldl_cons]
    cases b with
    | true => simpa [Value.truthy] using ih b'
    | false => simpa [Value.truthy] using ih false

variable {source : Source M} {v : Value}

theorem resolveAll_leaves (hseed : source.seed scope = pure v)
    (leaves : List (List String × Value)) :
    resolveAll scope (leaves.map fun leaf => .node source (Predicate.leafEntries leaf))
      = (pure (leaves.map fun leaf => .bool (v.hasLeaf leaf)) : M (List Value)) := by
  induction leaves with
  | nil => rw [List.map_nil, List.map_nil, resolveAll]
  | cons leaf leaves ih =>
    rw [List.map_cons, resolveAll, Operand.resolve, hseed, pure_bind, evaluate_leafEntries,
      pure_bind, ih, pure_bind, List.map_cons]

/-- **What the queue of a pattern answers** on a source of a known value: whether all leaves are
    found. -/
theorem Predicate.resolve_patternOperand (hseed : source.seed scope = pure v) (fields : Fields) :
    (patternOperand source fields).resolve scope = pure (.bool (patternHolds fields v)) := by
  show _ = pure (Value.bool ((Value.leavesOfFields fields).all v.hasLeaf))
  unfold patternOperand
  match Value.leavesOfFields fields with
  | [] => rw [Operand.resolve, List.all_nil]
  | [leaf] =>
    simp only [Operand.resolve, hseed, pure_bind, evaluate_leafEntries, List.all_cons, List.all_nil,
      Bool.and_true]
  | leaf :: next :: rest =>
    simp only [Operand.resolve, hseed, pure_bind, evaluate_append, evaluate_leafEntries, evaluate,
      Entry.apply, resolveAll_leaves hseed]
    have hfold := foldl_and_bool ((next :: rest).map v.hasLeaf) (v.hasLeaf leaf)
    rw [List.map_map, List.all_map] at hfold
    exact congrArg pure hfold

end Queue

/-! ## 4. Tests by pattern -/

namespace Predicate

variable {M : Type → Type} [Monad M] [MonadExceptOf Error M]

/-- **A test by pattern answers whether the value matches,** and never fails: the operand that the
    pattern makes of the value is resolved to that truth value, and so is the test. -/
theorem test_pattern [LawfulMonad M] (scope : Scope) (fields : Fields) (d : Value) :
    ((pattern fields).operand (.operand (.literal d))).resolve scope
        = (pure (.bool (decide ((Value.object fields).Matches d))) : M Value) ∧
      (pattern fields).holds scope d
        = (pure (decide ((Value.object fields).Matches d)) : M Bool) := by
  have hdecide : decide ((Value.object fields).Matches d) = patternHolds fields d := by
    rw [Bool.eq_iff_iff, decide_eq_true_iff, patternHolds_iff]
  have hseed : (Source.operand (.literal d) : Source M).seed scope = pure d := by
    rw [Source.seed, Operand.resolve]
  rw [hdecide]
  exact ⟨resolve_patternOperand hseed fields, by rw [holds]⟩

/-- The fields `b` of the items of `a` are asked for as an array, and nothing is asked of `c`. -/
theorem test_pattern_items :
    (pattern [("a", .object [("b", .array [.string "x", .null])]), ("c", .object [])]).holds []
        (.object [("a", .array [.object [("b", .string "x")], .bool true])])
      = (.ok true : Except Error Bool) :=
  (test_pattern [] _ _).2.trans (congrArg Except.ok (decide_eq_true (by decide)))

end Predicate

end QueryAlgebra
