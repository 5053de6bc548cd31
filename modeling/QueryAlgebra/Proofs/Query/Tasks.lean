import QueryAlgebra.KeyValue.Pipeline
import QueryAlgebra.Proofs.Outcome

/-!
# Queries are as their tasks

A query computes, and runs the tasks in it. So a property of computations that every computation
without tasks has, and every sequence inherits from its parts, holds of a whole query when it holds
of its tasks. The property may also speak of the answer: what a queue becomes in a pipeline has the
tasks of the queue.

* `Closed`: such properties.
* `Closed.resolve`, `Closed.evaluate`: operands and queues, in the recursion of the evaluator.
* `Closed.ofEntries`, `Closed.run`: working out a pipeline, and sending documents through it.
-/

namespace QueryAlgebra

variable {M : Type → Type} [Monad M] [MonadExceptOf Error M]

/-! ## 1. Properties of computations -/

/-- **A property of computations and their answers** that holds of every known answer and failure,
    and of a sequence whose parts have it. -/
structure Closed (G : (α : Type) → (α → Prop) → M α → Prop) : Prop where
  /-- A known answer. -/
  pure {α : Type} {Q : α → Prop} {a : α} : Q a → G α Q (pure a)
  /-- A failure. -/
  throw {α : Type} {Q : α → Prop} (e : Error) : G α Q (throw e)
  /-- A sequence. -/
  bind {α β : Type} {Q : α → Prop} {R : β → Prop} {x : M α} {f : α → M β} :
    G α Q x → (∀ a, Q a → G β R (f a)) → G β R (x >>= f)

/-- A property of a computation, whatever it answers. -/
abbrev Anyway (G : (α : Type) → (α → Prop) → M α → Prop) {α : Type} (x : M α) : Prop :=
  G α (fun _ => True) x

namespace Closed

variable {G : (α : Type) → (α → Prop) → M α → Prop} (hG : Closed G) {α β : Type}

include hG

theorem known (a : α) : Anyway G (Pure.pure a : M α) := hG.pure trivial

/-- A check answers what it comes to. -/
theorem checked {Q : α → Prop} {x : Except Error α} (h : ∀ a, x = .ok a → Q a) :
    G α Q (QueryAlgebra.ofOutcome x : M α) := by
  cases x with
  | ok a => exact hG.pure (h a rfl)
  | error e => exact hG.throw e

theorem ofOutcome (x : Except Error α) : Anyway G (QueryAlgebra.ofOutcome x : M α) :=
  hG.checked fun _ _ => trivial

/-- What is known of an answer may be weakened. -/
theorem mono [LawfulMonad M] {Q R : α → Prop} {x : M α} (hx : G α Q x) (h : ∀ a, Q a → R a) :
    G α R x := by
  rw [← bind_pure x]
  exact hG.bind hx fun a ha => hG.pure (h a ha)

/-- A sequence of which only the last part's answer matters. -/
theorem andThen {R : β → Prop} {x : M α} {f : α → M β} (hx : Anyway G x)
    (hf : ∀ a, G β R (f a)) : G β R (x >>= f) := hG.bind hx fun a _ => hf a

theorem mapM {f : α → M β} (h : ∀ a, Anyway G (f a)) [LawfulMonad M] (as : List α) :
    Anyway G (as.mapM f) := by
  induction as with
  | nil => exact hG.known []
  | cons a as ih =>
    rw [List.mapM_cons]
    exact hG.andThen (h a) fun _ => hG.andThen ih fun _ => hG.known _

theorem filterM {f : α → M Bool} (h : ∀ a, Anyway G (f a)) [LawfulMonad M] (as : List α) :
    Anyway G (as.filterM f) := by
  induction as with
  | nil =>
    rw [filterM_nil]
    exact hG.known []
  | cons a as ih =>
    rw [filterM_cons]
    exact hG.andThen (h a) fun _ => hG.andThen ih fun _ => hG.known _

end Closed

/-! ## 2. Queries -/

section Queries

variable (P : M Value → Prop)

mutual

/-- Every task in the operand has a property. -/
def Operand.Tasks : Operand M → Prop
  | .literal _ => True
  | .task run => ∀ scope, P (run scope)
  | .node source entries => Source.Tasks source ∧ EntriesTasks entries

/-- Every task in the source has a property. -/
def Source.Tasks : Source M → Prop
  | .row | .parameter _ => True
  | .operand op => Operand.Tasks op

/-- Every task in the operands has a property. -/
def OperandsTasks : List (Operand M) → Prop
  | [] => True
  | op :: rest => Operand.Tasks op ∧ OperandsTasks rest

/-- Every task in the test has a property. -/
def Predicate.Tasks : Predicate M → Prop
  | .test body => Operand.Tasks body
  | .pattern _ | .constant _ => True

/-- Every task in the argument has a property. -/
def BranchArg.Tasks : BranchArg M → Prop
  | .value op | .call op => Operand.Tasks op

/-- Every task in the arguments has a property. -/
def ArgsTasks : List (BranchArg M) → Prop
  | [] => True
  | arg :: rest => BranchArg.Tasks arg ∧ ArgsTasks rest

/-- Every task in the operation has a property. -/
def Entry.Tasks : Entry M → Prop
  | .select op | .call op | .startsWith op | .endsWith op | .limit op | .difference op | .map op
  | .substr op none => Operand.Tasks op
  | .substr op (some length) => Operand.Tasks op ∧ Operand.Tasks length
  | .eq ops | .ne ops | .or ops | .and ops | .arith _ ops | .ordered _ ops | .contains ops
  | .pluck ops => OperandsTasks ops
  | .branch args => ArgsTasks args
  | .filter predicate => Predicate.Tasks predicate
  | .not | .len | .count | .distinct => True

/-- Every task in the operations has a property. -/
def EntriesTasks : List (Entry M) → Prop
  | [] => True
  | entry :: rest => Entry.Tasks entry ∧ EntriesTasks rest

end

end Queries

namespace Closed

variable {G : (α : Type) → (α → Prop) → M α → Prop}

mutual

/-- **Resolving an operand is as its tasks.** -/
theorem resolve [LawfulMonad M] (hG : Closed G) (op : Operand M) (h : op.Tasks (Anyway G))
    (scope : Scope) : Anyway G (op.resolve scope) := by
  match op with
  | .literal v =>
    rw [Operand.resolve]
    exact hG.known v
  | .task run =>
    rw [Operand.Tasks] at h
    rw [Operand.resolve]
    exact h scope
  | .node source entries =>
    rw [Operand.Tasks] at h
    rw [Operand.resolve]
    exact hG.andThen (seed hG source h.1 scope) fun v => evaluate hG entries h.2 scope v

theorem seed [LawfulMonad M] (hG : Closed G) (source : Source M) (h : source.Tasks (Anyway G))
    (scope : Scope) : Anyway G (source.seed scope) := by
  match source with
  | .row =>
    rw [Source.seed]
    exact hG.throw _
  | .parameter up =>
    rw [Source.seed]
    split
    · exact hG.known _
    · exact hG.throw _
  | .operand op =>
    rw [Source.Tasks] at h
    rw [Source.seed]
    exact resolve hG op h scope

theorem resolveAll [LawfulMonad M] (hG : Closed G) (ops : List (Operand M))
    (h : OperandsTasks (Anyway G) ops) (scope : Scope) :
    Anyway G (QueryAlgebra.resolveAll scope ops) := by
  match ops with
  | [] =>
    rw [QueryAlgebra.resolveAll]
    exact hG.known []
  | op :: rest =>
    rw [OperandsTasks] at h
    rw [QueryAlgebra.resolveAll]
    exact hG.andThen (resolve hG op h.1 scope) fun _ =>
      hG.andThen (resolveAll hG rest h.2 scope) fun _ => hG.known _

theorem holds [LawfulMonad M] (hG : Closed G) (predicate : Predicate M)
    (h : predicate.Tasks (Anyway G)) (scope : Scope) (v : Value) :
    Anyway G (predicate.holds scope v) := by
  match predicate with
  | .test body =>
    rw [Predicate.Tasks] at h
    rw [Predicate.holds]
    exact hG.andThen (resolve hG body h _) fun _ => hG.known _
  | .pattern fields =>
    rw [Predicate.holds]
    exact hG.known _
  | .constant c =>
    rw [Predicate.holds]
    exact hG.known _

theorem argument [LawfulMonad M] (hG : Closed G) (arg : BranchArg M) (h : arg.Tasks (Anyway G))
    (scope : Scope) (v : Value) : Anyway G (arg.resolve scope v) := by
  match arg with
  | .value op =>
    rw [BranchArg.Tasks] at h
    rw [BranchArg.resolve]
    exact resolve hG op h scope
  | .call body =>
    rw [BranchArg.Tasks] at h
    rw [BranchArg.resolve]
    exact resolve hG body h _

theorem branchElse [LawfulMonad M] (hG : Closed G) (args : List (BranchArg M))
    (h : ArgsTasks (Anyway G) args) (scope : Scope) (v : Value) :
    Anyway G (QueryAlgebra.branchElse scope v args) := by
  match args with
  | [] =>
    rw [QueryAlgebra.branchElse]
    exact hG.throw _
  | [otherwise] =>
    rw [ArgsTasks] at h
    rw [QueryAlgebra.branchElse]
    exact argument hG otherwise h.1 scope v
  | [_, otherwise] =>
    rw [ArgsTasks, ArgsTasks] at h
    rw [QueryAlgebra.branchElse]
    exact argument hG otherwise h.2.1 scope v
  | test :: action :: last :: rest =>
    rw [ArgsTasks, ArgsTasks] at h
    rw [QueryAlgebra.branchElse]
    · refine hG.andThen (argument hG test h.1 scope v) fun answer => ?_
      split
      · exact argument hG action h.2.1 scope v
      · exact branchElse hG (last :: rest) h.2.2 scope v
    · simp

theorem apply [LawfulMonad M] (hG : Closed G) (entry : Entry M) (h : entry.Tasks (Anyway G))
    (scope : Scope) (v : Value) : Anyway G (entry.apply scope v) := by
  have checked {α : Type} (x : Except Error α) {f : α → M Value} (hf : ∀ a, Anyway G (f a)) :
      Anyway G (QueryAlgebra.ofOutcome x >>= f) := hG.andThen (hG.ofOutcome x) hf
  match entry with
  | .not =>
    rw [Entry.apply]
    exact hG.known _
  | .len =>
    rw [Entry.apply]
    exact hG.ofOutcome _
  | .count | .distinct =>
    rw [Entry.apply]
    exact checked _ fun _ => hG.known _
  | .select op =>
    rw [Entry.Tasks] at h
    rw [Entry.apply]
    exact hG.andThen (resolve hG op h scope) fun _ => hG.ofOutcome _
  | .startsWith op | .endsWith op =>
    rw [Entry.Tasks] at h
    rw [Entry.apply]
    exact hG.andThen (resolve hG op h scope) fun _ => hG.known _
  | .call op =>
    rw [Entry.Tasks] at h
    rw [Entry.apply]
    exact resolve hG op h _
  | .map op =>
    rw [Entry.Tasks] at h
    rw [Entry.apply]
    refine checked _ fun items => ?_
    exact hG.andThen (hG.mapM (fun item => resolve hG op h _) items) fun _ => hG.known _
  | .filter predicate =>
    rw [Entry.Tasks] at h
    rw [Entry.apply]
    refine checked _ fun items => ?_
    exact hG.andThen (hG.filterM (fun item => holds hG predicate h scope item) items)
      fun _ => hG.known _
  | .limit op | .difference op =>
    rw [Entry.Tasks] at h
    rw [Entry.apply]
    refine checked _ fun _ => hG.andThen (resolve hG op h scope) fun _ => ?_
    exact checked _ fun _ => hG.known _
  | .substr op none =>
    rw [Entry.Tasks] at h
    rw [Entry.apply]
    exact hG.andThen (resolve hG op h scope) fun _ => checked _ fun _ => hG.known _
  | .substr op (some length) =>
    rw [Entry.Tasks] at h
    rw [Entry.apply]
    refine hG.andThen (resolve hG op h.1 scope) fun _ => checked _ fun _ => ?_
    exact hG.andThen (resolve hG length h.2 scope) fun _ => checked _ fun _ => hG.known _
  | .eq ops | .ne ops | .or ops | .and ops | .ordered _ ops =>
    rw [Entry.Tasks] at h
    rw [Entry.apply]
    exact hG.andThen (resolveAll hG ops h scope) fun _ => hG.known _
  | .arith _ ops =>
    rw [Entry.Tasks] at h
    rw [Entry.apply]
    exact hG.andThen (resolveAll hG ops h scope) fun _ => hG.ofOutcome _
  | .contains ops =>
    rw [Entry.Tasks] at h
    rw [Entry.apply]
    exact checked _ fun _ => hG.andThen (resolveAll hG ops h scope) fun _ => hG.known _
  | .pluck ops =>
    rw [Entry.Tasks] at h
    rw [Entry.apply]
    refine checked _ fun _ => hG.andThen (resolveAll hG ops h scope) fun _ => ?_
    exact checked _ fun _ => checked _ fun _ => hG.known _
  | .branch [] | .branch [_] =>
    rw [Entry.apply]
    exact hG.throw _
  | .branch (action :: test :: rest) =>
    rw [Entry.Tasks, ArgsTasks] at h
    rw [Entry.apply]
    · split
      · exact argument hG action h.1 scope v
      · exact branchElse hG (test :: rest) h.2 scope v
    · simp

/-- **Evaluating a queue is as its tasks.** -/
theorem evaluate [LawfulMonad M] (hG : Closed G) (entries : List (Entry M))
    (h : EntriesTasks (Anyway G) entries) (scope : Scope) (v : Value) :
    Anyway G (QueryAlgebra.evaluate scope v entries) := by
  match entries with
  | [] =>
    rw [QueryAlgebra.evaluate]
    exact hG.known v
  | entry :: rest =>
    rw [EntriesTasks] at h
    rw [QueryAlgebra.evaluate]
    exact hG.andThen (apply hG entry h.1 scope v) fun w => evaluate hG rest h.2 scope w

end

/-- Every operand is resolved to a value. -/
theorem resolveAll_length [LawfulMonad M] (hG : Closed G) {ops : List (Operand M)}
    (h : OperandsTasks (Anyway G) ops) (scope : Scope) :
    G _ (fun values => values.length = ops.length) (QueryAlgebra.resolveAll scope ops) := by
  induction ops with
  | nil =>
    rw [QueryAlgebra.resolveAll]
    exact hG.pure rfl
  | cons op rest ih =>
    rw [OperandsTasks] at h
    rw [QueryAlgebra.resolveAll]
    exact hG.andThen (resolve hG op h.1 scope) fun _ =>
      hG.bind (ih h.2) fun _ hlength => hG.pure (congrArg (· + 1) hlength)

/-- Every operand names a field. -/
theorem fieldNames_length [LawfulMonad M] (hG : Closed G) {ops : List (Operand M)}
    (h : OperandsTasks (Anyway G) ops) (scope : Scope) (command : String) :
    G _ (fun names => names.length = ops.length) (QueryAlgebra.fieldNames scope command ops) :=
  hG.bind (hG.resolveAll_length h scope) fun _ hlength =>
    hG.checked fun _ hnames => (length_of_mapM_eq_ok hnames).trans hlength

theorem fieldNames [LawfulMonad M] (hG : Closed G) {ops : List (Operand M)}
    (h : OperandsTasks (Anyway G) ops) (scope : Scope) (command : String) :
    Anyway G (QueryAlgebra.fieldNames scope command ops) :=
  hG.mono (hG.fieldNames_length h scope command) fun _ _ => trivial

end Closed

/-! ## 3. Pipelines -/

namespace KeyValue

section Pipelines

variable (P : M Value → Prop)

/-- Every task in the stage has a property. -/
def Stage.Tasks : Stage M → Prop
  | .filter predicate => predicate.Tasks P
  | .map body => body.Tasks P
  | .select _ | .distinct _ | .limit _ | .pluck _ => True

/-- Every task in the pipeline has a property. -/
structure Pipeline.Tasks (p : Pipeline M) : Prop where
  /-- In every stage. -/
  stages : ∀ stage ∈ p.stages, stage.Tasks P
  /-- In the operations left. -/
  rest : EntriesTasks P p.rest

variable {P}

omit [Monad M] [MonadExceptOf Error M] in
theorem Pipeline.Tasks.cons {p : Pipeline M} (h : p.Tasks P) {stage : Stage M}
    (hstage : stage.Tasks P) : (p.cons stage).Tasks P :=
  ⟨List.forall_mem_cons.mpr ⟨hstage, h.stages⟩, h.rest⟩

end Pipelines

end KeyValue

namespace Closed

open KeyValue

variable {G : (α : Type) → (α → Prop) → M α → Prop} [LawfulMonad M] (hG : Closed G)
variable {scope : Scope}

include hG

/-- A stage is as its tasks, and keeps them. -/
theorem stage {stage : Stage M} (h : stage.Tasks (Anyway G)) (v : Value) :
    G _ (fun p => p.1.Tasks (Anyway G)) (stage.apply scope v) := by
  cases stage with
  | select selector =>
    simp only [Stage.apply]
    exact hG.andThen (hG.ofOutcome _) fun _ => hG.pure trivial
  | filter predicate =>
    simp only [Stage.apply]
    exact hG.andThen (hG.holds predicate h scope v) fun _ => hG.pure h
  | distinct seen =>
    simp only [Stage.apply]
    split
    · exact hG.pure trivial
    · exact hG.pure trivial
  | limit remaining =>
    cases remaining with
    | zero => exact hG.pure trivial
    | succ n => exact hG.pure trivial
  | pluck names =>
    simp only [Stage.apply]
    exact hG.andThen (hG.ofOutcome _) fun _ => hG.pure trivial
  | map body =>
    simp only [Stage.apply]
    exact hG.andThen (hG.resolve body h _) fun _ => hG.pure h

theorem stages {stages : List (Stage M)} (h : ∀ stage ∈ stages, stage.Tasks (Anyway G))
    (v : Value) :
    G _ (fun p => ∀ stage ∈ p.1, stage.Tasks (Anyway G)) (applyStages scope v stages) := by
  induction stages generalizing v with
  | nil => exact hG.pure h
  | cons stage stages ih =>
    obtain ⟨hstage, hstages⟩ := List.forall_mem_cons.mp h
    refine hG.bind (hG.stage hstage v) ?_
    rintro ⟨stage', out⟩ hstage'
    cases out with
    | none => exact hG.pure (List.forall_mem_cons.mpr ⟨hstage', hstages⟩)
    | some w =>
      refine hG.bind (ih hstages w) ?_
      rintro ⟨stages', out'⟩ hstages'
      exact hG.pure (List.forall_mem_cons.mpr ⟨hstage', hstages'⟩)

theorem runStages {stages : List (Stage M)} (h : ∀ stage ∈ stages, stage.Tasks (Anyway G))
    (docs : List Value) : Anyway G (KeyValue.runStages scope stages docs) := by
  induction docs generalizing stages with
  | nil => exact hG.known []
  | cons v docs ih =>
    refine hG.bind (hG.stages h v) ?_
    rintro ⟨stages', out⟩ hstages'
    exact hG.andThen (ih hstages') fun _ => hG.known _

/-- **Sending documents through a pipeline is as its tasks.** -/
theorem run {p : Pipeline M} (h : p.Tasks (Anyway G)) (docs : List Value) :
    Anyway G (p.run scope docs) :=
  hG.andThen (hG.runStages h.stages docs) fun out => hG.evaluate p.rest h.rest scope (.array out)

/-- **Working out a pipeline is as the tasks of the queue,** and the pipeline has them. -/
theorem ofEntries {entries : List (Entry M)} (h : EntriesTasks (Anyway G) entries)
    (scope : Scope) : G _ (fun p => p.Tasks (Anyway G)) (Pipeline.ofEntries scope entries) := by
  induction entries with
  | nil => exact hG.pure ⟨fun stage hs => absurd hs List.not_mem_nil, h⟩
  | cons entry rest ih =>
    have hwhole : (⟨[], entry :: rest⟩ : Pipeline M).Tasks (Anyway G) :=
      ⟨fun stage hs => absurd hs List.not_mem_nil, h⟩
    rw [EntriesTasks] at h
    obtain ⟨hentry, hrest⟩ := h
    cases entry with
    | select selector =>
      rw [Entry.Tasks] at hentry
      refine hG.andThen (hG.resolve selector hentry scope) fun _ => hG.bind (ih hrest) ?_
      exact fun p hp => hG.pure (hp.cons trivial)
    | filter predicate =>
      rw [Entry.Tasks] at hentry
      exact hG.bind (ih hrest) fun p hp => hG.pure (hp.cons hentry)
    | distinct => exact hG.bind (ih hrest) fun p hp => hG.pure (hp.cons trivial)
    | limit n =>
      rw [Entry.Tasks] at hentry
      refine hG.andThen (hG.resolve n hentry scope) fun _ => ?_
      refine hG.andThen (hG.ofOutcome _) fun _ => hG.bind (ih hrest) ?_
      exact fun p hp => hG.pure (hp.cons trivial)
    | pluck names =>
      rw [Entry.Tasks] at hentry
      refine hG.andThen (hG.fieldNames hentry scope "pluck") fun _ => hG.bind (ih hrest) ?_
      exact fun p hp => hG.pure (hp.cons trivial)
    | map body =>
      rw [Entry.Tasks] at hentry
      exact hG.bind (ih hrest) fun p hp => hG.pure (hp.cons hentry)
    | _ => exact hG.pure hwhole

end Closed

end QueryAlgebra
