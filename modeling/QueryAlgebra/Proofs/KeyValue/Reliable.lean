import QueryAlgebra.KeyValue.Database
import QueryAlgebra.Proofs.Query.Tasks

/-!
# Reliable stores

Nothing is assumed of a store but that its calls fail with faults of the storage, that reads do not
write, and that a batch is applied as a whole or not at all. Reads may answer anything, and any call
may fail at any time.

* `Reliable`: what is assumed of a store. A session is so, whichever of its calls fail
  (`session_reliable`).
* `Reading`: a computation that hands no batch to the store. What a table reads is one
  (`reading_indexes`, `reading_fetch`, …), and so are queries whose tasks do not look at the state
  (`closed_yields`).
-/

namespace QueryAlgebra

namespace KeyValue

/-! ## 1. Stores -/

/-- What is observed of a store on a state. -/
structure Journal (σ : Type) where
  /-- What is stored. -/
  content : σ → Content
  /-- How many batches were handed over so far, those that failed included. -/
  tried : σ → Nat

section Stores

variable {σ α β : Type} (j : Journal σ)

/-- Nothing was written, and no batch was handed over. -/
def Silent (s s' : σ) : Prop := j.content s' = j.content s ∧ j.tried s' = j.tried s

/-- **What is assumed of a store:** reads and fresh identifiers do not write, a batch is applied as a
    whole or fails without effect, and all failures are faults of the storage. What reads answer is
    left open, and so is what other calls do. -/
structure Reliable (store : Store (Stateful σ)) : Prop where
  /-- Reading a key. -/
  get (key : String) (s : σ) : Silent j s (Stateful.on (store.get key) s).2 ∧
    ∀ e, (Stateful.on (store.get key) s).1 = .error e → ∃ message, e = .storage message
  /-- Reading the entries whose keys begin with a text. -/
  scan (start : String) (s : σ) : Silent j s (Stateful.on (store.scan start) s).2 ∧
    ∀ e, (Stateful.on (store.scan start) s).1 = .error e → ∃ message, e = .storage message
  /-- Drawing an identifier. -/
  freshId (s : σ) : Silent j s (Stateful.on store.freshId s).2 ∧
    ∀ e, (Stateful.on store.freshId s).1 = .error e → ∃ message, e = .storage message
  /-- Writing a batch. -/
  batch (writes : List Write) (s : σ) :
    j.tried (Stateful.on (store.batch writes) s).2 = j.tried s + 1 ∧
      (((Stateful.on (store.batch writes) s).1 = .ok () ∧
          j.content (Stateful.on (store.batch writes) s).2 = (j.content s).applyAll writes) ∨
        ((∃ message, (Stateful.on (store.batch writes) s).1 = .error (.storage message)) ∧
          j.content (Stateful.on (store.batch writes) s).2 = j.content s))

variable {j}

theorem Silent.refl (s : σ) : Silent j s s := ⟨rfl, rfl⟩

theorem Silent.trans {s₁ s₂ s₃ : σ} (h : Silent j s₁ s₂) (h' : Silent j s₂ s₃) : Silent j s₁ s₃ :=
  ⟨h'.1.trans h.1, h'.2.trans h.2⟩

/-! ## 2. Computations -/

variable (j)

/-- A computation that hands no batch to the store. -/
def Reading (x : Stateful σ α) : Prop := ∀ s, Silent j s (Stateful.on x s).2

variable {j}

theorem Reading.pure (a : α) : Reading j (pure a : Stateful σ α) := fun s => Silent.refl s

theorem Reading.throw (e : Error) : Reading j (throw e : Stateful σ α) := fun s => Silent.refl s

theorem Reading.ofOutcome (x : Except Error α) : Reading j (ofOutcome x : Stateful σ α) := by
  intro s
  rw [Stateful.on_ofOutcome]
  exact Silent.refl s

theorem Reading.bind {x : Stateful σ α} {f : α → Stateful σ β} (hx : Reading j x)
    (hf : ∀ a, Reading j (f a)) : Reading j (x >>= f) := by
  intro s
  have hsilent := hx s
  rw [Stateful.on_bind]
  rcases hon : Stateful.on x s with ⟨e | a, s'⟩ <;> rw [hon] at hsilent
  · exact hsilent
  · exact hsilent.trans (hf a s')

theorem Reading.tryCatch {x : Stateful σ α} {f : Error → Stateful σ α} (hx : Reading j x)
    (hf : ∀ e, Reading j (f e)) : Reading j (tryCatch x f) := by
  intro s
  have hsilent := hx s
  rw [Stateful.on_tryCatch]
  rcases hon : Stateful.on x s with ⟨e | a, s'⟩ <;> rw [hon] at hsilent
  · exact hsilent.trans (hf e s')
  · exact hsilent

theorem Reliable.reading_get {store : Store (Stateful σ)} (h : Reliable j store) (key : String) :
    Reading j (store.get key) := fun s => (h.get key s).1

theorem Reliable.reading_scan {store : Store (Stateful σ)} (h : Reliable j store)
    (start : String) : Reading j (store.scan start) := fun s => (h.scan start s).1

theorem Reliable.reading_freshId {store : Store (Stateful σ)} (h : Reliable j store) :
    Reading j store.freshId := fun s => (h.freshId s).1

end Stores

/-! ## 3. Operands -/

section Operands

variable {σ α : Type}

/-- A computation whose outcome does not depend on the state, with a property of what it answers. -/
def Yields (σ α : Type) (Q : α → Prop) (x : Stateful σ α) : Prop :=
  ∃ outcome : Except Error α, x = ofOutcome outcome ∧ ∀ a, outcome = .ok a → Q a

/-- **Queries whose tasks do not look at the state do not look at it either.** -/
theorem closed_yields : Closed (Yields σ) where
  pure {_ _ a} h := ⟨.ok a, rfl, fun _ ha => Except.ok.inj ha ▸ h⟩
  throw e := ⟨.error e, rfl, fun _ ha => by cases ha⟩
  bind {_ _ _ _ x f} hx hf := by
    obtain ⟨outcome, rfl, hQ⟩ := hx
    cases outcome with
    | error e => exact ⟨.error e, rfl, fun _ ha => by cases ha⟩
    | ok a =>
      obtain ⟨next, hnext, hR⟩ := hf a (hQ a rfl)
      exact ⟨next, hnext, hR⟩

theorem Yields.reading {j : Journal σ} {Q : α → Prop} {x : Stateful σ α} (h : Yields σ α Q x) :
    Reading j x := by
  obtain ⟨outcome, rfl, -⟩ := h
  exact Reading.ofOutcome outcome

end Operands

/-! ## 4. What a table reads -/

section Tables

variable {σ : Type} {j : Journal σ} {t : Table (Stateful σ)} (h : Reliable j t.store)

include h

theorem reading_indexes : Reading j t.indexes := by
  refine (h.reading_get _).bind fun text => ?_
  cases text with
  | none => exact Reading.throw _
  | some text => exact Reading.ofOutcome _

theorem reading_fetch (key : Value) : Reading j (t.fetch key) := by
  refine (h.reading_get _).bind fun text => ?_
  cases text with
  | none => exact Reading.pure _
  | some text => exact (Reading.ofOutcome _).bind fun _ => Reading.pure _

theorem reading_lookup (field : String) (v : Value) :
    Reading j (lookup t.store t.name field v) := by
  refine (h.reading_get _).bind fun text => ?_
  cases text with
  | none => exact Reading.pure _
  | some text => exact Reading.ofOutcome _

theorem reading_lookupAll (field : String) (values : List Value) :
    Reading j (t.lookupAll field values) := by
  induction values with
  | nil => exact Reading.pure _
  | cons v values ih =>
    exact (reading_lookup h field v).bind fun _ => ih.bind fun _ => Reading.pure _

theorem reading_fetchAll (keys : List Value) : Reading j (t.fetchAll keys) := by
  induction keys with
  | nil => exact Reading.pure _
  | cons key keys ih => exact (reading_fetch h key).bind fun _ => ih.bind fun _ => Reading.pure _

theorem reading_documents {scope : Scope} {keys : Option (KeyScope (Stateful σ))}
    (hkeys : ∀ k ∈ keys, OperandsTasks (Anyway (Yields σ)) k.keys) :
    Reading j (t.documents scope keys) := by
  cases keys with
  | none => exact (h.reading_scan _).bind fun _ => Reading.ofOutcome _
  | some k =>
    have hvalues := (closed_yields.resolveAll k.keys (hkeys k rfl) scope).reading (j := j)
    refine hvalues.bind fun values => (reading_indexes h).bind fun indexes => ?_
    refine Reading.bind ?_ fun _ => reading_fetchAll h _
    unfold Table.primaryKeys
    split
    · exact Reading.pure _
    · split_ifs
      · exact Reading.pure _
      · exact reading_lookupAll h _ _
      · exact Reading.throw _

theorem reading_entryChange (field : String) (change : List Value → List Value)
    (v : Option Value) : Reading j (entryChange t.store t.name field change v) := by
  cases v with
  | none => exact Reading.pure _
  | some v => exact (reading_lookup h field v).bind fun _ => Reading.pure _

theorem reading_fieldWrites (key : Value) (old new : Option Fields) (field : String) :
    Reading j (fieldWrites t.store t.name key old new field) := by
  unfold fieldWrites
  dsimp only
  split_ifs
  · exact Reading.pure _
  · exact (reading_entryChange h field _ _).bind fun _ =>
      (reading_entryChange h field _ _).bind fun _ => Reading.pure _

theorem reading_indexWrites (key : Value) (old new : Option Fields) (fields : List String) :
    Reading j (indexWrites t.store t.name key old new fields) := by
  induction fields with
  | nil => exact Reading.pure _
  | cons field fields ih =>
    exact (reading_fieldWrites h key old new field).bind fun _ => ih.bind fun _ => Reading.pure _

theorem reading_rowTarget {scope : Scope} {key : Operand (Stateful σ)}
    (hkey : key.Tasks (Anyway (Yields σ))) : Reading j (t.rowTarget scope key) :=
  (closed_yields.resolve key hkey scope).reading.bind fun _ =>
    (reading_indexes h).bind fun _ => Reading.pure _

theorem reading_freshKey (attempts : Nat) : Reading j (t.freshKey attempts) := by
  induction attempts with
  | zero => exact Reading.throw _
  | succ attempts ih =>
    refine h.reading_freshId.bind fun id => (reading_fetch h _).bind fun doc => ?_
    cases doc with
    | none => exact Reading.pure _
    | some doc => exact ih

theorem reading_keyOf (primaryKey : String) (doc : Fields) :
    Reading j (t.keyOf primaryKey doc) := by
  unfold Table.keyOf
  split
  · exact Reading.pure _
  · exact (reading_freshKey h _).bind fun _ => Reading.pure _

end Tables

/-! ## 5. Sessions -/

/-- What is observed of a session. -/
def sessionJournal : Journal Memory where
  content := Memory.content
  tried s := s.calls.count .batch

theorem on_charge_any (call : StoreCall) (s : Memory) :
    Stateful.on (Memory.charge call) s =
      ((match s.fault call (s.calls.count call) with
        | some message => .error (.storage message)
        | none => .ok ()), { s with calls := call :: s.calls }) := by
  unfold Memory.charge
  rw [Stateful.on_bind, Stateful.on_get]
  dsimp only
  rw [Stateful.on_bind, Stateful.on_set]
  dsimp only
  cases s.fault call (s.calls.count call) <;> rfl

theorem on_batch_any (writes : List Write) (s : Memory) :
    Stateful.on (Memory.store.batch writes) s =
      match s.fault .batch (s.calls.count .batch) with
      | some message => (.error (.storage message), { s with calls := .batch :: s.calls })
      | none => (.ok (), { s with
          calls := .batch :: s.calls
          content := s.content.applyAll writes
          batches := writes :: s.batches }) := by
  show Stateful.on (Memory.charge .batch >>= _) s = _
  rw [Stateful.on_bind, on_charge_any]
  cases s.fault .batch (s.calls.count .batch) <;> rfl

/-- A call that does not write, before what it answers. -/
theorem silent_call {α : Type} {call : StoreCall} (hcall : call ≠ .batch) {f : Unit → Session α}
    (hf : ∀ s, Silent sessionJournal s (Stateful.on (f ()) s).2 ∧
      ∀ e, (Stateful.on (f ()) s).1 ≠ .error e) (s : Memory) :
    Silent sessionJournal s (Stateful.on (Memory.charge call >>= f) s).2 ∧
      ∀ e, (Stateful.on (Memory.charge call >>= f) s).1 = .error e →
        ∃ message, e = .storage message := by
  have hcounted : Silent sessionJournal s { s with calls := call :: s.calls } :=
    ⟨rfl, List.count_cons_of_ne hcall⟩
  rw [Stateful.on_bind, on_charge_any]
  cases s.fault call (s.calls.count call) with
  | some message => exact ⟨hcounted, fun e he => ⟨message, by cases he; rfl⟩⟩
  | none =>
    obtain ⟨hsilent, hok⟩ := hf { s with calls := call :: s.calls }
    exact ⟨hcounted.trans hsilent, fun e he => absurd he (hok e)⟩

/-- **The store of a session keeps the promise,** whichever calls fail. -/
theorem session_reliable : Reliable sessionJournal Memory.store where
  get key := silent_call (by decide) fun s => ⟨Silent.refl s, fun e he => by cases he⟩
  scan start := silent_call (by decide) fun s => ⟨Silent.refl s, fun e he => by cases he⟩
  freshId s := ⟨⟨rfl, rfl⟩, fun e he => by cases he⟩
  batch writes s := by
    have hcounted : (StoreCall.batch :: s.calls).count .batch = s.calls.count .batch + 1 :=
      List.count_cons_self
    rw [on_batch_any]
    cases s.fault .batch (s.calls.count .batch) with
    | some message => exact ⟨hcounted, Or.inr ⟨⟨message, rfl⟩, rfl⟩⟩
    | none => exact ⟨hcounted, Or.inl ⟨rfl, rfl⟩⟩

end KeyValue

end QueryAlgebra
