import QueryAlgebra.Proofs.Query.Tasks
import QueryAlgebra.Sql.Stream

/-!
# Plans are as their tasks

Compiling a filter and planning a query compute, and run the tasks of the operands that do not depend
on the row. So a property of computations that known answers and failures have, and that sequences
inherit, holds of a plan being made when it holds of the tasks of the queue (`Closed.planStream`). The
operations that the plan leaves have the tasks of the queue.
-/

namespace QueryAlgebra

variable {M : Type → Type}

/-! ## 1. Tasks of a predicate's operand -/

section Tasks

variable {P : M Value → Prop}

theorem entriesTasks_iff {entries : List (Entry M)} :
    EntriesTasks P entries ↔ ∀ entry ∈ entries, entry.Tasks P := by
  induction entries with
  | nil => simp [EntriesTasks]
  | cons entry rest ih => rw [EntriesTasks, ih, List.forall_mem_cons]

theorem operandsTasks_iff {ops : List (Operand M)} :
    OperandsTasks P ops ↔ ∀ op ∈ ops, op.Tasks P := by
  induction ops with
  | nil => simp [OperandsTasks]
  | cons op rest ih => rw [OperandsTasks, ih, List.forall_mem_cons]

theorem Predicate.tasks_leafEntries (leaf : List String × Value) :
    EntriesTasks P (leafEntries leaf) := by
  refine entriesTasks_iff.mpr fun entry hentry => ?_
  rcases List.mem_append.mp hentry with hentry | hentry
  · obtain ⟨name, -, rfl⟩ := List.mem_map.mp hentry
    rw [Entry.Tasks, Operand.Tasks]
    exact trivial
  · rw [List.mem_singleton.mp hentry]
    simp [Entry.Tasks, OperandsTasks, Operand.Tasks]

/-- The operand that a predicate makes of a source has the tasks of the two. -/
theorem Predicate.tasks_operand {source : Source M} (hsource : source.Tasks P)
    {predicate : Predicate M} (h : predicate.Tasks P) : (predicate.operand source).Tasks P := by
  cases predicate with
  | test body =>
    rw [Predicate.Tasks] at h
    exact h
  | constant v =>
    rw [operand, Operand.Tasks]
    exact trivial
  | pattern fields =>
    rw [operand]
    unfold patternOperand
    split
    · rw [Operand.Tasks]
      exact trivial
    · rw [Operand.Tasks]
      exact ⟨hsource, tasks_leafEntries _⟩
    · next leaf rest _ _ =>
      rw [Operand.Tasks]
      refine ⟨hsource, entriesTasks_iff.mpr fun entry hentry => ?_⟩
      rcases List.mem_append.mp hentry with hentry | hentry
      · exact entriesTasks_iff.mp (tasks_leafEntries leaf) entry hentry
      · rw [List.mem_singleton.mp hentry, Entry.Tasks]
        refine operandsTasks_iff.mpr fun op hop => ?_
        obtain ⟨other, -, rfl⟩ := List.mem_map.mp hop
        rw [Operand.Tasks]
        exact ⟨hsource, tasks_leafEntries other⟩

end Tasks

/-! ## 2. Filters -/

variable [Monad M] [MonadExceptOf Error M]

namespace Closed

open Sql

variable {G : (α : Type) → (α → Prop) → M α → Prop}

theorem plainValue [LawfulMonad M] (hG : Closed G) {op : Operand M} (h : op.Tasks (Anyway G))
    (scope : Scope) (command : String) : Anyway G (Sql.plainValue scope command op) := by
  unfold Sql.plainValue
  split
  · exact hG.throw _
  · exact hG.resolve op h scope

theorem plainValues [LawfulMonad M] (hG : Closed G) {ops : List (Operand M)}
    (h : OperandsTasks (Anyway G) ops) (scope : Scope) (command : String) :
    Anyway G (Sql.plainValues scope command ops) := by
  induction ops with
  | nil => exact hG.known _
  | cons op rest ih =>
    rw [OperandsTasks] at h
    exact hG.andThen (hG.plainValue h.1 scope command) fun _ =>
      hG.andThen (ih h.2) fun _ => hG.known _

theorem subFieldTests [LawfulMonad M] (hG : Closed G) {ops : List (Operand M)}
    (h : OperandsTasks (Anyway G) ops) (scope : Scope) (c : Compiled) (command field : String)
    (negated : Bool) : Anyway G (compileSubFieldTests scope c command field negated ops) :=
  hG.andThen (hG.ofOutcome _) fun _ =>
    hG.andThen (hG.plainValues h scope command) fun _ => hG.known _

mutual

/-- **Compiling a condition is as its tasks.** -/
theorem compileCondition [LawfulMonad M] (hG : Closed G) (op : Operand M)
    (h : op.Tasks (Anyway G)) (scope : Scope) : Anyway G (Sql.compileCondition scope op) := by
  match op with
  | .literal v =>
    rw [Sql.compileCondition]
    exact hG.known _
  | .task run =>
    rw [Operand.Tasks] at h
    rw [Sql.compileCondition]
    exact hG.andThen (h scope) fun _ => hG.known _
  | .node source entries =>
    have hresolve := hG.resolve (.node source entries) h scope
    rw [Operand.Tasks] at h
    rw [Sql.compileCondition]
    split
    · exact hG.andThen (compileQueue hG entries h.2 scope {}) fun _ => hG.ofOutcome _
    · exact hG.andThen hresolve fun _ => hG.known _

theorem compileConditions [LawfulMonad M] (hG : Closed G) (ops : List (Operand M))
    (h : OperandsTasks (Anyway G) ops) (scope : Scope) :
    Anyway G (Sql.compileConditions scope ops) := by
  match ops with
  | [] =>
    rw [Sql.compileConditions]
    exact hG.known _
  | op :: rest =>
    rw [OperandsTasks] at h
    rw [Sql.compileConditions]
    exact hG.andThen (compileCondition hG op h.1 scope) fun _ =>
      hG.andThen (compileConditions hG rest h.2 scope) fun _ => hG.known _

theorem compileTerm [LawfulMonad M] (hG : Closed G) (op : Operand M)
    (h : op.Tasks (Anyway G)) (scope : Scope) : Anyway G (Sql.compileTerm scope op) := by
  match op with
  | .literal v =>
    rw [Sql.compileTerm]
    exact hG.known _
  | .task run =>
    rw [Operand.Tasks] at h
    rw [Sql.compileTerm]
    exact hG.andThen (h scope) fun _ => hG.known _
  | .node source entries =>
    have hresolve := hG.resolve (.node source entries) h scope
    rw [Operand.Tasks] at h
    rw [Sql.compileTerm]
    split
    · exact hG.andThen (compileQueue hG entries h.2 scope {}) fun _ => hG.ofOutcome _
    · exact hG.andThen hresolve fun _ => hG.known _

theorem compileTerms [LawfulMonad M] (hG : Closed G) (ops : List (Operand M))
    (h : OperandsTasks (Anyway G) ops) (scope : Scope) :
    Anyway G (Sql.compileTerms scope ops) := by
  match ops with
  | [] =>
    rw [Sql.compileTerms]
    exact hG.known _
  | op :: rest =>
    rw [OperandsTasks] at h
    rw [Sql.compileTerms]
    exact hG.andThen (compileTerm hG op h.1 scope) fun _ =>
      hG.andThen (compileTerms hG rest h.2 scope) fun _ => hG.known _

theorem compileEntry [LawfulMonad M] (hG : Closed G) (entry : Entry M)
    (h : entry.Tasks (Anyway G)) (scope : Scope) (c : Compiled) :
    Anyway G (Sql.compileEntry scope c entry) := by
  have checked {α β : Type} (x : Except Error α) {f : α → M β} (hf : ∀ a, Anyway G (f a)) :
      Anyway G (QueryAlgebra.ofOutcome x >>= f) := hG.andThen (hG.ofOutcome x) hf
  match entry with
  | .select op =>
    rw [Entry.Tasks] at h
    rw [Sql.compileEntry]
    exact hG.andThen (hG.plainValue h scope _) fun _ => checked _ fun _ => hG.ofOutcome _
  | .eq ops | .ne ops =>
    rw [Entry.Tasks] at h
    rw [Sql.compileEntry]
    split
    · exact hG.subFieldTests h scope c _ _ _
    · exact checked _ fun _ => hG.andThen (compileTerms hG ops h scope) fun _ => hG.known _
  | .ordered _ ops | .arith _ ops =>
    rw [Entry.Tasks] at h
    rw [Sql.compileEntry]
    exact checked _ fun _ => hG.andThen (compileTerms hG ops h scope) fun _ => hG.known _
  | .startsWith op | .endsWith op =>
    rw [Entry.Tasks] at h
    rw [Sql.compileEntry]
    exact checked _ fun _ => hG.andThen (hG.plainValue h scope _) fun _ => hG.known _
  | .substr op none =>
    rw [Entry.Tasks] at h
    rw [Sql.compileEntry]
    refine checked _ fun _ => hG.andThen (hG.plainValue h scope _) fun _ => ?_
    exact checked _ fun _ => hG.known _
  | .substr op (some length) =>
    rw [Entry.Tasks] at h
    rw [Sql.compileEntry]
    refine checked _ fun _ => hG.andThen (hG.plainValue h.1 scope _) fun _ => checked _ fun _ => ?_
    exact hG.andThen (hG.plainValue h.2 scope _) fun _ => checked _ fun _ => hG.known _
  | .len =>
    rw [Sql.compileEntry]
    exact checked _ fun _ => hG.known _
  | .or ops | .and ops =>
    rw [Entry.Tasks] at h
    rw [Sql.compileEntry]
    refine checked _ fun c => ?_
    split
    · exact hG.throw _
    · exact hG.andThen (compileConditions hG ops h scope) fun _ => hG.known _
  | .not =>
    rw [Sql.compileEntry]
    refine checked _ fun c => ?_
    split
    · exact hG.known _
    · exact hG.known _
  | .call _ | .branch _ | .count | .limit _ | .difference _ | .contains _ | .filter _ | .pluck _
  | .map _ | .distinct =>
    rw [Sql.compileEntry]
    exact hG.throw _

/-- **Compiling a queue on the row is as its tasks.** -/
theorem compileQueue [LawfulMonad M] (hG : Closed G) (entries : List (Entry M))
    (h : EntriesTasks (Anyway G) entries) (scope : Scope) (c : Compiled) :
    Anyway G (Sql.compileQueue scope c entries) := by
  match entries with
  | [] =>
    rw [Sql.compileQueue]
    exact hG.known _
  | entry :: rest =>
    rw [EntriesTasks] at h
    rw [Sql.compileQueue]
    exact hG.andThen (compileEntry hG entry h.1 scope c) fun c => compileQueue hG rest h.2 scope c

end

/-! ## 3. Plans -/

/-- What a plan has of the queue and of the plan it goes on from: the tasks of the operations left,
    and a projection on no column only when the queue asks for one. -/
structure Planned (P : M Value → Prop) (before : StreamPlan M) (entries : List (Entry M))
    (plan : StreamPlan M) : Prop where
  rest : EntriesTasks P plan.rest
  columns : plan.columns = some [] → before.columns = some [] ∨ .pluck [] ∈ entries

omit [Monad M] [MonadExceptOf Error M] in
theorem Planned.cons {P : M Value → Prop} {before next plan : StreamPlan M} {entry : Entry M}
    {rest : List (Entry M)} (h : Planned P next rest plan)
    (hnext : next.columns = some [] → before.columns = some [] ∨ .pluck [] ∈ entry :: rest) :
    Planned P before (entry :: rest) plan where
  rest := h.rest
  columns hplan := (h.columns hplan).elim hnext fun hmem => .inr (List.mem_cons_of_mem _ hmem)

variable (hG : Closed G)

include hG

theorem plucked {names : M (List String)} {Q : List String → Prop} (h : G _ Q names)
    (plan : StreamPlan M) :
    G _ (fun plan' => plan'.rest = plan.rest ∧ ∃ columns, plan'.columns = some columns ∧ Q columns)
      (plan.plucked names) := by
  unfold StreamPlan.plucked
  have hlast : G (StreamPlan M)
      (fun plan' => plan'.rest = plan.rest ∧ ∃ columns, plan'.columns = some columns ∧ Q columns)
      (do return { plan with columns := some (← names) }) :=
    hG.bind h fun columns hcolumns => hG.pure ⟨rfl, columns, rfl, hcolumns⟩
  split_ifs
  · exact hG.andThen (hG.throw _) fun _ => hG.andThen (hG.throw _) fun _ => hlast
  · exact hG.andThen (hG.throw _) fun _ => hlast
  · exact hG.andThen (hG.throw _) fun _ => hlast
  · exact hlast

variable [LawfulMonad M]

theorem compilePredicate {predicate : Predicate M} (h : predicate.Tasks (Anyway G))
    (scope : Scope) : Anyway G (Sql.compilePredicate scope predicate) := by
  have hsource : (Source.parameter 0 : Source M).Tasks (Anyway G) := by
    rw [Source.Tasks]
    exact trivial
  exact hG.compileCondition _ (Predicate.tasks_operand hsource h) _

/-- **Planning a queue is as its tasks.** -/
theorem planFrom {entries : List (Entry M)} (h : EntriesTasks (Anyway G) entries) (scope : Scope)
    (plan : StreamPlan M) (hplan : EntriesTasks (Anyway G) plan.rest) :
    G _ (Planned (Anyway G) plan entries) (Sql.planFrom scope plan entries) := by
  induction entries generalizing plan with
  | nil => exact hG.pure ⟨hplan, .inl⟩
  | cons entry rest ih =>
    have hwhole : G (StreamPlan M) (Planned (Anyway G) plan (entry :: rest))
        (Pure.pure (plan.leave (entry :: rest))) := hG.pure ⟨h, .inl⟩
    rw [EntriesTasks] at h
    obtain ⟨hentry, hrest⟩ := h
    -- What keeps the columns goes on as the plan does.
    have hstep (next : StreamPlan M) (hleft : next.rest = plan.rest)
        (hcolumns : next.columns = some [] → plan.columns = some [] ∨ .pluck [] ∈ entry :: rest) :
        G _ (Planned (Anyway G) plan (entry :: rest)) (Sql.planFrom scope next rest) :=
      hG.mono (ih hrest next (hleft ▸ hplan)) fun _ hplanned => hplanned.cons hcolumns
    cases entry with
    | filter predicate =>
      rw [Entry.Tasks] at hentry
      rw [Sql.planFrom]
      split
      · exact hwhole
      · refine hG.andThen (hG.compilePredicate hentry scope) fun condition => ?_
        cases condition with
        | const b =>
          cases b with
          | true => exact hstep plan rfl .inl
          | false => exact hG.pure ⟨hrest, .inl⟩
        | formula f => exact hstep _ rfl .inl
    | distinct =>
      rw [Sql.planFrom]
      have hnext := hstep { plan with distinct := true } rfl .inl
      split_ifs
      · exact hwhole
      · exact hG.andThen (hG.throw _) fun _ => hnext
      · exact hnext
    | pluck names =>
      rw [Entry.Tasks] at hentry
      rw [Sql.planFrom]
      refine hG.bind (hG.plucked (hG.fieldNames_length hentry scope "pluck") plan) ?_
      rintro plan' ⟨hsame, columns, hcolumns, hlength⟩
      refine hstep plan' hsame fun hnone => .inr ?_
      obtain rfl : [] = columns := (Option.some.inj (hcolumns.symm.trans hnone)).symm
      rw [List.eq_nil_of_length_eq_zero hlength.symm]
      exact List.mem_cons_self
    | limit n =>
      rw [Entry.Tasks] at hentry
      rw [Sql.planFrom]
      refine hG.andThen (hG.resolve n hentry scope) fun _ => ?_
      exact hG.andThen (hG.ofOutcome _) fun _ => hstep _ rfl .inl
    | _ => exact hwhole

/-- **The operations that a plan leaves have the tasks of the queue.** -/
theorem planStream {entries : List (Entry M)} (h : EntriesTasks (Anyway G) entries)
    (scope : Scope) :
    G _ (fun plan => EntriesTasks (Anyway G) plan.rest) (Sql.planStream scope entries) :=
  hG.mono (hG.planFrom h scope {} trivial) fun _ hplanned => hplanned.rest

/-- **A plan projects on no column only when the queue has a projection on none.** -/
theorem planStream_columns {entries : List (Entry M)} (h : EntriesTasks (Anyway G) entries)
    (scope : Scope) :
    G _ (fun plan => EntriesTasks (Anyway G) plan.rest ∧
        (plan.columns = some [] → .pluck [] ∈ entries))
      (Sql.planStream scope entries) :=
  hG.mono (hG.planFrom h scope {} trivial) fun _ hplanned => ⟨hplanned.rest, fun hnone =>
    (hplanned.columns hnone).resolve_left fun hstart => by cases hstart⟩

/-- **Finishing a plan is as the tasks of the operations left.** -/
theorem finish {plan : StreamPlan M} (h : EntriesTasks (Anyway G) plan.rest) (scope : Scope)
    (rows : List Value) : Anyway G (plan.finish scope rows) :=
  hG.evaluate plan.rest h scope (.array rows)

end Closed

end QueryAlgebra
