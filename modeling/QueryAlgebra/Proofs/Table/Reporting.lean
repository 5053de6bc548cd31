import QueryAlgebra.Proofs.Outcome
import QueryAlgebra.Table.WriteResult

/-!
# Reported failures

A write that reports its failures answers a fault of the storage in its result, and raises every
other error as it is. So what it raises is never a fault of the storage, and neither is what the checks
of a write's arguments raise. An insert reports a header that cannot be read, and is otherwise the
loop on its documents (`WriteResult.on_insertAfter`).
-/

namespace QueryAlgebra

/-! ## 1. Reports -/

/-- A result with a failure: one is counted, and the first is in words. -/
structure WriteResult.Failed (r : WriteResult) : Prop where
  errors : 1 ≤ r.errors
  firstError : r.firstError.isSome

namespace WriteResult

theorem failed_failure (message : String) : (failure message).Failed := ⟨Nat.le_refl 1, rfl⟩

theorem Failed.merge_left {a : WriteResult} (h : a.Failed) (b : WriteResult) :
    (a.merge b).Failed := by
  refine ⟨Nat.le_add_right_of_le h.errors, ?_⟩
  show (a.firstError.or b.firstError).isSome
  rw [Option.isSome_or, h.firstError, Bool.true_or]

theorem Failed.merge_right {b : WriteResult} (h : b.Failed) (a : WriteResult) :
    (a.merge b).Failed := by
  refine ⟨Nat.le_add_left_of_le h.errors, ?_⟩
  show (a.firstError.or b.firstError).isSome
  rw [Option.isSome_or, h.firstError, Bool.or_true]

end WriteResult

section Reports

variable {σ : Type}

theorem WriteResult.on_report (x : Stateful σ WriteResult) (s : σ) :
    Stateful.on (WriteResult.report x) s = match Stateful.on x s with
      | (.ok r, s') => (.ok r, s')
      | (.error e, s') => (WriteResult.degrade (.error e), s') := by
  unfold WriteResult.report
  rw [Stateful.on_tryCatch]
  rcases Stateful.on x s with ⟨e | r, s'⟩
  · exact Stateful.on_ofOutcome _ s'
  · rfl

/-- An error that is no fault of the storage is raised as it is. -/
theorem WriteResult.on_report_of_error {x : Stateful σ WriteResult} {s : σ} {e : Error}
    (h : (Stateful.on x s).1 = .error e) (hfault : e.isStorageFault = false) :
    Stateful.on (WriteResult.report x) s = (.error e, (Stateful.on x s).2) := by
  have hon : Stateful.on x s = (.error e, (Stateful.on x s).2) := Prod.ext h rfl
  rw [WriteResult.on_report, hon]
  simp [WriteResult.degrade, hfault]

theorem WriteResult.degrade_of_fault {e : Error} (h : e.isStorageFault = true) :
    WriteResult.degrade (.error e) = .ok (.failure e.message) := if_pos h

theorem isStorageFault_degrade {e e' : Error} (h : WriteResult.degrade (.error e) = .error e') :
    e' = e ∧ e.isStorageFault = false := by
  simp only [WriteResult.degrade] at h
  split_ifs at h with hfault
  cases h
  exact ⟨rfl, by simpa using hfault⟩

/-- **A reported write raises no fault of the storage.** -/
theorem isStorageFault_report {x : Stateful σ WriteResult} {s : σ} {e : Error}
    (h : (Stateful.on (WriteResult.report x) s).1 = .error e) : e.isStorageFault = false := by
  rw [WriteResult.on_report] at h
  rcases hon : Stateful.on x s with ⟨e' | r, s'⟩ <;> rw [hon] at h
  · obtain ⟨rfl, hfault⟩ := isStorageFault_degrade h
    exact hfault
  · cases h

/-- **What an insert does once its documents are known:** it reports that its header cannot be read,
    or it is the loop on the documents. -/
theorem WriteResult.on_insertAfter {η : Type} (header : Stateful σ η)
    (write : η → Fields → Stateful σ WriteResult) {docs : Value} {list : List Fields}
    (hdocs : docs.documents = .ok list) (s : σ) :
    Stateful.on (insertAfter header write docs) s
      = match (Stateful.on header s).1 with
        | .error e => (degrade (.error e), (Stateful.on header s).2)
        | .ok h => Stateful.on (reportEach (write h) {} list) (Stateful.on header s).2 := by
  have hattempt := Stateful.on_attempt header s
  unfold insertAfter
  rw [hdocs]
  refine (Stateful.on_bind_of_ok (congrArg Prod.fst hattempt)).trans ?_
  rw [hattempt]
  cases (Stateful.on header s).1 with
  | error e => exact Stateful.on_ofOutcome _ _
  | ok h => rfl

/-- An insert whose header has been read is the loop on its documents. -/
theorem WriteResult.on_insertAfter_of_ok {η : Type} {header : Stateful σ η}
    (write : η → Fields → Stateful σ WriteResult) {docs : Value} {list : List Fields}
    (hdocs : docs.documents = .ok list) {s : σ} {h : η} (hh : (Stateful.on header s).1 = .ok h) :
    Stateful.on (insertAfter header write docs) s
      = Stateful.on (reportEach (write h) {} list) (Stateful.on header s).2 := by
  rw [on_insertAfter header write hdocs, hh]

/-- An insert whose header cannot be read reports that. -/
theorem WriteResult.on_insertAfter_of_error {η : Type} {header : Stateful σ η}
    (write : η → Fields → Stateful σ WriteResult) {docs : Value} {list : List Fields}
    (hdocs : docs.documents = .ok list) {s : σ} {e : Error}
    (he : (Stateful.on header s).1 = .error e) (hfault : e.isStorageFault = true) :
    Stateful.on (insertAfter header write docs) s
      = (.ok (.failure e.message), (Stateful.on header s).2) := by
  rw [on_insertAfter header write hdocs, he]
  exact Prod.ext (degrade_of_fault hfault) rfl

end Reports

/-! ## 2. Checks of arguments -/

theorem isStorageFault_singleDocument {command : String} {v : Value} {e : Error}
    (h : v.singleDocument command = .error e) : e.isStorageFault = false := by
  cases v <;> cases h <;> rfl

theorem isStorageFault_asDocument {v : Value} {e : Error} (h : v.asDocument = .error e) :
    e.isStorageFault = false := by
  cases v <;> cases h <;> rfl

theorem isStorageFault_documents {v : Value} {e : Error} (h : v.documents = .error e) :
    e.isStorageFault = false := by
  unfold Value.documents at h
  split at h
  · obtain ⟨item, -, hitem⟩ := mapM_eq_error h
    exact isStorageFault_asDocument hitem
  · cases hdoc : v.asDocument with
    | ok fields =>
      rw [hdoc] at h
      cases h
    | error e' =>
      rw [hdoc] at h
      cases h
      exact isStorageFault_asDocument hdoc

end QueryAlgebra
