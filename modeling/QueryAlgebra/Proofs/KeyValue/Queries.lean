import QueryAlgebra.Proofs.KeyValue.Footprint

/-!
# Queries that write nothing

A query is *quiet* when no task in it changes the store. Everything else in a query computes: so
resolving a quiet operand, evaluating a quiet queue, and sending documents through its pipeline
change nothing either, since changing nothing is a property that queries have when their tasks do
(`closed_gives`).

A handle with a quiet queue is a quiet operand (`quiet_handle`): the tasks that a database makes by
itself only read (`readsAt_gives`).
-/

namespace QueryAlgebra

namespace KeyValue

/-! ## 1. Computations that change nothing -/

/-- The computation changes nothing, and what it answers has a property. -/
def Gives {α : Type} (Q : α → Prop) (x : Session α) : Prop :=
  Inert x ∧ ∀ m a, Answers x m a → Q a

section Combine

variable {α β : Type} {Q : α → Prop} {R : β → Prop}

theorem Gives.pure {a : α} (h : Q a) : Gives Q (pure a : Session α) :=
  ⟨Inert.pure a, fun _ _ ha => ha.of_pure ▸ h⟩

theorem Gives.bind {x : Session α} {f : α → Session β} (hx : Gives Q x)
    (hf : ∀ a, Q a → Gives R (f a)) : Gives R (x >>= f) := by
  refine ⟨fun s hs => ?_, fun m b hb => ?_⟩
  · have hk := hx.1 s hs
    rw [Session.on_bind]
    rcases hon : x.on s with ⟨e | a, s'⟩ <;> rw [hon] at hk
    · exact hk
    · have hQ := hx.2 s.content a ⟨s, hs, rfl, by rw [hon]⟩
      exact hk.trans ((hf a hQ).1 s' hk.healthy)
  · obtain ⟨a, ha, hb⟩ := hb.of_bind hx.1
    exact (hf a (hx.2 m a ha)).2 m b hb

/-- A read changes nothing. -/
theorem Reads.gives {x : Session α} {f : Snapshot α} (h : Reads x f)
    (hQ : ∀ m a, f m = .ok a → Q a) : Gives Q x :=
  ⟨h.inert, fun m a ha => hQ m a (h.of_answers ha)⟩

/-- Changing nothing is a property that queries have when their tasks do. -/
theorem closed_gives : Closed (M := Session) (fun _ => Gives) where
  pure := Gives.pure
  throw e := ⟨Inert.throw e, fun _ _ ⟨_, _, _, hon⟩ => by cases hon⟩
  bind := Gives.bind

theorem anyway_gives {x : Session α} : Anyway (fun _ => Gives) x ↔ Inert x :=
  ⟨fun h => h.1, fun h => ⟨h, fun _ _ _ => trivial⟩⟩

/-- **The reads of a table change nothing.** -/
theorem readsAt_gives (t : String) : ReadsAt (fun _ => Gives) Memory.store t where
  closed := closed_gives
  get key _ := (Reads.get key).gives fun _ _ _ => trivial
  scan start _ := (Reads.scan start).gives fun m entries hentries e he => by
    obtain rfl := Except.ok.inj hentries
    exact Content.prefix_of_mem_startingWith he

end Combine

/-! ## 2. Quiet queries -/

/-- No task in the operand changes the store. -/
abbrev QuietOperand (op : Operand Session) : Prop := op.Tasks Inert

/-- No task in the operands changes the store. -/
abbrev QuietOperands (ops : List (Operand Session)) : Prop := OperandsTasks Inert ops

/-- No task in the operations changes the store. -/
abbrev QuietEntries (entries : List (Entry Session)) : Prop := EntriesTasks Inert entries

/-- The tasks of a quiet query have the property that its evaluation inherits. -/
theorem inert_eq_anyway : (Inert : Session Value → Prop) = Anyway (fun _ => Gives) :=
  funext fun _ => propext anyway_gives.symm

variable {scope : Scope}

/-- **Resolving a quiet operand changes nothing.** -/
theorem inert_resolve (op : Operand Session) (h : QuietOperand op) (scope : Scope) :
    Inert (op.resolve scope) := by
  rw [QuietOperand, inert_eq_anyway] at h
  exact anyway_gives.mp (closed_gives.resolve op h scope)

theorem inert_resolveAll (ops : List (Operand Session)) (h : QuietOperands ops) (scope : Scope) :
    Inert (resolveAll scope ops) := by
  rw [QuietOperands, inert_eq_anyway] at h
  exact anyway_gives.mp (closed_gives.resolveAll ops h scope)

/-- **A quiet queue becomes a pipeline whose runs change nothing,** and working it out changes nothing
    either. -/
theorem gives_ofEntries {entries : List (Entry Session)} (h : QuietEntries entries) :
    Gives (fun p => ∀ docs, Inert (p.run scope docs)) (Pipeline.ofEntries scope entries) := by
  rw [QuietEntries, inert_eq_anyway] at h
  exact closed_gives.mono (closed_gives.ofEntries h scope) fun p hp docs =>
    anyway_gives.mp (closed_gives.run hp docs)

/-! ## 3. Handles -/

/-- Choosing documents by quiet keys changes nothing. -/
theorem inert_documents {t : Table Session} (ht : t.store = Memory.store)
    {keys : Option (KeyScope Session)} (hkeys : ∀ k ∈ keys, QuietOperands k.keys) :
    Inert (t.documents scope keys) := by
  simp only [QuietOperands, inert_eq_anyway] at hkeys
  exact anyway_gives.mp (ReadsAt.documents (ht ▸ readsAt_gives t.name) hkeys)

/-- **A handle with a quiet queue is a quiet operand.** -/
theorem quiet_handle {h : Handle (Table Session) Session} (ht : h.table.store = Memory.store)
    (htarget : Target.Tasks Inert h.target) (hentries : QuietEntries h.entries) :
    QuietOperand h.toOperand := by
  simp only [QuietOperand, QuietEntries, inert_eq_anyway] at htarget hentries ⊢
  exact ReadsAt.handle (ht ▸ readsAt_gives h.table.name) htarget hentries

end KeyValue

end QueryAlgebra
