import QueryAlgebra.Proofs.Double.Reading
import QueryAlgebra.Proofs.Outcome

/-!
# Arithmetic on numbers

Operations on numbers are queued one after another, each with a list of operands, and every operation
rounds to a double after each operand. A double is finite, so that a computation may leave the doubles; it
does not come back then, and the answer of its operation is null. A division by zero is found all the same,
wherever it stands in the list. The next operation, if there is one, is refused: null is no number.

* `Arith.result`: one operand; `Double.rem_isSome`: a remainder never leaves the doubles.
* `Arith.apply_numbers`: what an operation answers to a number and a list of numbers.
* `ComesTo`: what a chain of operations comes to.
* `evaluate_arith`: a chain evaluates to what it comes to, and to nothing else.
-/

namespace QueryAlgebra

/-! ## 1. Results -/

/-- **A remainder stays within the finite doubles,** being no larger than the dividend. -/
theorem Double.rem_isSome (a b : Double) : (a.rem b).isSome = true := by
  refine nearest_isSome (Nat.lt_of_le_of_lt ?_ a.finite)
  calc roundToGrid (a.quanta % b.quanta) 1 ≤ roundToGrid a.quanta 1 :=
        roundToGrid_mono Nat.one_pos Nat.one_pos (Nat.mul_le_mul_right _ (Nat.mod_le _ _))
    _ = a.quanta := roundToGrid_one a.onGrid

namespace Arith

/-- The result of an operation, none when it leaves the finite doubles. -/
def result : Arith → Double → Double → Option Double
  | .add => Double.add
  | .sub => Double.sub
  | .mul => Double.mul
  | .div => Double.div
  | .mod => Double.rem

/-- **The running result of an operation,** operand by operand, none once it has left the finite
    doubles. -/
def running (op : Arith) (first : Number) (operands : List Number) : Option Double :=
  (operands.map Number.toDouble).foldlM op.result first.toDouble

/-- What is said of a zero divisor, by the operations that divide. -/
def zeroDivisor? : Arith → Option String
  | .div => some "division by zero"
  | .mod => some "modulo by zero"
  | .add | .sub | .mul => none

/-- **An operation divides by zero:** it divides, and one of its operands is zero. -/
def DividesByZero (op : Arith) (operands : List Number) (reason : String) : Prop :=
  op.zeroDivisor? = some reason ∧ ∃ n ∈ operands, n.isZero = true

variable {op : Arith} {ns : List Number}

theorem step_eq (op : Arith) (a : Option Double) (b : Double) :
    op.step a b = match op.zeroDivisor? with
      | some reason => if b.isZero then .error (.argument reason) else .ok (a.bind (op.result · b))
      | none => .ok (a.bind (op.result · b)) := by
  cases op <;> rfl

theorem asDouble_number (command : String) (n : Number) :
    (Value.number n).asDouble command = .ok n.toDouble := rfl

/-- The remaining operands of a run that divides by none of them, or does not divide. -/
theorem foldlM_step (h : ∀ reason, ¬op.DividesByZero ns reason) (a : Option Double) :
    (ns.map Value.number).foldlM (fun acc v => do op.step acc (← v.asDouble op.command)) a
      = .ok (a.bind ((ns.map Number.toDouble).foldlM op.result)) := by
  induction ns generalizing a with
  | nil => cases a <;> rfl
  | cons n ns ih =>
    have hstep : op.step a n.toDouble = .ok (a.bind (op.result · n.toDouble)) := by
      rw [step_eq]
      cases hdivides : op.zeroDivisor? with
      | none => rfl
      | some reason =>
        have hzero : ¬n.isZero = true := fun hzero =>
          h reason ⟨hdivides, n, List.mem_cons_self, hzero⟩
        exact if_neg hzero
    have hrest := ih (fun reason ⟨hdivides, m, hm, hzero⟩ =>
      h reason ⟨hdivides, m, List.mem_cons_of_mem _ hm, hzero⟩) (a.bind (op.result · n.toDouble))
    simp only [List.map_cons, List.foldlM_cons, asDouble_number, ok_bind, hstep, hrest]
    cases a <;> rfl

/-- A zero among the operands ends the run, whatever has been computed before. -/
theorem foldlM_step_error {reason : String} (h : op.DividesByZero ns reason) (a : Option Double) :
    (ns.map Value.number).foldlM (fun acc v => do op.step acc (← v.asDouble op.command)) a
      = .error (.argument reason) := by
  obtain ⟨hdivides, n, hn, hzero⟩ := h
  induction ns generalizing a with
  | nil => exact absurd hn List.not_mem_nil
  | cons m ns ih =>
    have hstep : op.step a m.toDouble = if m.isZero then .error (.argument reason)
        else .ok (a.bind (op.result · m.toDouble)) := by
      rw [step_eq, hdivides]
      rfl
    simp only [List.map_cons, List.foldlM_cons, asDouble_number, ok_bind, hstep]
    split_ifs with hm
    · rfl
    · rcases List.mem_cons.mp hn with rfl | hn
      · exact absurd hzero hm
      · exact ih _ hn

/-- **An operation on a number and numbers** that does not divide by zero answers its running result, or
    null when there is none. -/
theorem apply_numbers (h : ∀ reason, ¬op.DividesByZero ns reason) (n : Number) :
    op.apply (.number n) (ns.map .number) = .ok (.ofDouble? (op.running n ns)) := by
  have hfold : op.fold (.number n) (ns.map .number) = .ok (.ofDouble? (op.running n ns)) := by
    rw [fold, asDouble_number, ok_bind, foldlM_step h]
    rfl
  cases op <;> exact hfold

/-- An operation that divides by zero fails, and says so. -/
theorem apply_numbers_zero {reason : String} (h : op.DividesByZero ns reason) (n : Number) :
    op.apply (.number n) (ns.map .number) = .error (.argument reason) := by
  have hfold : op.fold (.number n) (ns.map .number) = .error (.argument reason) := by
    rw [fold, asDouble_number, ok_bind, foldlM_step_error h]
    rfl
  cases op <;> exact hfold

/-- No operation is defined on null. -/
theorem apply_null (op : Arith) (operands : List Value) :
    op.apply .null operands = .error (.typeMismatch op.command "number" "null") := by
  cases op <;> rfl

/-- What leaves the finite doubles is no remainder. -/
theorem ne_mod_of_running_eq_none {n : Number} (h : op.running n ns = none) : op ≠ .mod := by
  rintro rfl
  have hsome (ds : List Double) (a : Double) : (ds.foldlM (result .mod) a).isSome = true := by
    induction ds generalizing a with
    | nil => rfl
    | cons d ds ih =>
      obtain ⟨r, hr⟩ := Option.isSome_iff_exists.mp (Double.rem_isSome a d)
      have hresult : result .mod a d = some r := hr
      rw [List.foldlM_cons, hresult]
      exact ih r
  have hrunning := hsome (ns.map Number.toDouble) n.toDouble
  rw [running] at h
  rw [h] at hrunning
  cases hrunning

end Arith

/-! ## 2. Chains -/

/-- An operation on numbers with its operands. -/
abbrev Step := Arith × List Number

/-- **What a chain of operations on a number comes to.** -/
inductive ComesTo : Number → List Step → Except Error Value → Prop
  /-- Nothing is left to do. -/
  | done (n : Number) : ComesTo n [] (.ok (.number n))
  /-- The operation stays within the finite doubles: the chain goes on with its result. -/
  | next {n : Number} {op : Arith} {ns : List Number} {steps : List Step} {d : Double}
    {r : Except Error Value} (h : ∀ reason, ¬op.DividesByZero ns reason)
    (hd : op.running n ns = some d) (hrest : ComesTo (.ofDouble d) steps r) : ComesTo n ((op, ns) :: steps) r
  /-- The operation divides by zero. -/
  | zero {n : Number} {op : Arith} {ns : List Number} {steps : List Step} {reason : String}
    (h : op.DividesByZero ns reason) : ComesTo n ((op, ns) :: steps) (.error (.argument reason))
  /-- The last operation, which is no remainder, leaves the finite doubles. -/
  | leaves {n : Number} {op : Arith} {ns : List Number} (h : ∀ reason, ¬op.DividesByZero ns reason)
    (hleaves : op.running n ns = none) (hmod : op ≠ .mod) : ComesTo n [(op, ns)] (.ok .null)
  /-- An operation, which is no remainder, leaves the finite doubles, and another one follows. -/
  | refused {n : Number} {op op' : Arith} {ns ns' : List Number} {steps : List Step}
    (h : ∀ reason, ¬op.DividesByZero ns reason) (hleaves : op.running n ns = none) (hmod : op ≠ .mod) :
    ComesTo n ((op, ns) :: (op', ns') :: steps) (.error (.typeMismatch op'.command "number" "null"))

/-- An entry asks for an operation: its operands resolve to the numbers. -/
def Entry.Asks (scope : Scope) (entry : Entry (Except Error)) (step : Step) : Prop :=
  ∃ operands, entry = .arith step.1 operands ∧
    resolveAll scope operands = .ok (step.2.map Value.number)

section Chains

variable {scope : Scope} {entry : Entry (Except Error)} {entries : List (Entry (Except Error))}
variable {op : Arith} {ns : List Number} {steps : List Step}

theorem Entry.Asks.apply (h : entry.Asks scope (op, ns)) (current : Value) :
    entry.apply scope current = op.apply current (ns.map .number) := by
  obtain ⟨operands, rfl, hresolve⟩ := h
  rw [Entry.apply, hresolve, ok_bind, ofOutcome_self]

/-- An operation that stays within the finite doubles. -/
theorem evaluate_next {n : Number} {d : Double} (hentry : entry.Asks scope (op, ns))
    (h : ∀ reason, ¬op.DividesByZero ns reason) (hd : op.running n ns = some d) :
    evaluate scope (.number n) (entry :: entries)
      = evaluate scope (.number (.ofDouble d)) entries := by
  rw [evaluate, hentry.apply, Arith.apply_numbers h, hd, ok_bind]
  rfl

/-- An operation that leaves the finite doubles. -/
theorem evaluate_leaves {n : Number} (hentry : entry.Asks scope (op, ns))
    (h : ∀ reason, ¬op.DividesByZero ns reason) (hleaves : op.running n ns = none) :
    evaluate scope (.number n) (entry :: entries) = evaluate scope .null entries := by
  rw [evaluate, hentry.apply, Arith.apply_numbers h, hleaves, ok_bind]
  rfl

theorem evaluate_zero {n : Number} {reason : String} (hentry : entry.Asks scope (op, ns))
    (h : op.DividesByZero ns reason) :
    evaluate scope (.number n) (entry :: entries) = .error (.argument reason) := by
  rw [evaluate, hentry.apply, Arith.apply_numbers_zero h]
  rfl

theorem evaluate_null (hentry : entry.Asks scope (op, ns)) :
    evaluate scope .null (entry :: entries) = .error (.typeMismatch op.command "number" "null") := by
  rw [evaluate, hentry.apply, Arith.apply_null]
  rfl

/-- Every chain comes to what it evaluates to. -/
theorem comesTo_evaluate (n : Number) (hentries : List.Forall₂ (Entry.Asks scope) entries steps) :
    ComesTo n steps (evaluate scope (.number n) entries) := by
  induction hentries generalizing n with
  | nil => exact .done n
  | @cons entry step entries steps hentry hrest ih =>
    obtain ⟨op, ns⟩ := step
    by_cases hzero : ∃ reason, op.DividesByZero ns reason
    · obtain ⟨reason, hzero⟩ := hzero
      exact evaluate_zero hentry hzero ▸ .zero hzero
    · have hzero := not_exists.mp hzero
      cases hrunning : op.running n ns with
      | some d => exact evaluate_next hentry hzero hrunning ▸ .next hzero hrunning (ih _)
      | none =>
        have hmod := Arith.ne_mod_of_running_eq_none hrunning
        rw [evaluate_leaves hentry hzero hrunning]
        cases hrest with
        | nil => exact .leaves hzero hrunning hmod
        | cons hnext => exact evaluate_null hnext ▸ .refused hzero hrunning hmod

/-- **What a chain of arithmetic on numbers evaluates to:** the number that its operations give one after
    another; the error of the first that divides by zero; null, when the last one leaves the finite doubles;
    or, when an earlier one does, the error that the next one is no operation on null. -/
theorem evaluate_arith (n : Number) (hentries : List.Forall₂ (Entry.Asks scope) entries steps)
    (r : Except Error Value) : evaluate scope (.number n) entries = r ↔ ComesTo n steps r := by
  refine ⟨fun h => h ▸ comesTo_evaluate n hentries, fun h => ?_⟩
  induction h generalizing entries with
  | done n =>
    cases hentries
    rw [evaluate]
    rfl
  | next h hd _ ih =>
    cases hentries with
    | cons hentry hrest => exact (evaluate_next hentry h hd).trans (ih hrest)
  | zero h =>
    cases hentries with
    | cons hentry hrest => exact evaluate_zero hentry h
  | leaves h hleaves _ =>
    cases hentries with
    | cons hentry hrest =>
      cases hrest
      exact evaluate_leaves hentry h hleaves
  | refused h hleaves _ =>
    cases hentries with
    | cons hentry hrest =>
      cases hrest with
      | cons hnext _ => exact (evaluate_leaves hentry h hleaves).trans (evaluate_null hnext)

end Chains

/-- Seven less two, times three. -/
def sevenChain : List (Entry (Except Error)) :=
  [.arith .sub [.literal (.count 2)], .arith .mul [.literal (.count 3)]]

/-- It comes to fifteen, an integer. -/
theorem evaluate_sevenChain :
    List.Forall₂ (Entry.Asks []) sevenChain [(.sub, [.ofCount 2]), (.mul, [.ofCount 3])] ∧
      evaluate [] (.count 7) sevenChain = .ok (.count 15) := by
  have hentries : List.Forall₂ (Entry.Asks []) sevenChain
      [(.sub, [.ofCount 2]), (.mul, [.ofCount 3])] :=
    .cons ⟨_, rfl, rfl⟩ (.cons ⟨_, rfl, rfl⟩ .nil)
  refine ⟨hentries, (evaluate_arith (.ofCount 7) hentries _).mpr ?_⟩
  have hfifteen : Number.ofDouble (.ofInt 15 (by decide)) = .ofCount 15 := by decide +kernel
  refine .next (d := .ofInt 5 (by decide)) (fun _ h => by cases h.1) (by decide +kernel) ?_
  refine .next (d := .ofInt 15 (by decide)) (fun _ h => by cases h.1) (by decide +kernel) ?_
  exact hfifteen ▸ .done _

/-- `2^1023`, the largest power of two that is a double. -/
def largestPower : Double := ⟨false, 1 <<< (Double.scale + 1023), by decide +kernel, by decide +kernel⟩

/-- **Twice `2^1023` is null,** and nothing can be added to it. -/
theorem doubled_null :
    evaluate (M := Except Error) [] (.number (.double largestPower)) [.arith .mul [.literal (.count 2)]]
        = .ok .null ∧
      evaluate (M := Except Error) [] (.number (.double largestPower))
          [.arith .mul [.literal (.count 2)], .arith .add [.literal (.count 1)]]
        = .error (.typeMismatch "add" "number" "null") := by
  have hmul : (Entry.arith (M := Except Error) .mul [.literal (.count 2)]).Asks [] (.mul, [.ofCount 2]) :=
    ⟨_, rfl, rfl⟩
  have hadd : (Entry.arith (M := Except Error) .add [.literal (.count 1)]).Asks [] (.add, [.ofCount 1]) :=
    ⟨_, rfl, rfl⟩
  have hleaves : Arith.running .mul (.double largestPower) [.ofCount 2] = none := by decide +kernel
  have hzero : ∀ reason, ¬Arith.DividesByZero .mul [.ofCount 2] reason := fun _ h => by cases h.1
  constructor
  · rw [evaluate_leaves hmul hzero hleaves, evaluate]
    rfl
  · rw [evaluate_leaves hmul hzero hleaves, evaluate_null hadd]
    rfl

end QueryAlgebra
