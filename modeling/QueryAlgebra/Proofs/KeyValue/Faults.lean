import QueryAlgebra.Proofs.KeyValue.Reliable
import QueryAlgebra.Proofs.KeyValue.Steps

/-!
# Sessions with faults

Whichever calls of a session fail, an insert does what it does in the session without faults, or it
fails with a fault of the storage and leaves the content as it was (`Follows`). So what is known of
sessions without faults is known of all of them (`Follows.leads`): a step on a row stays one, since
a fault is a step that writes nothing.

The argument is on sequences: what comes before the last call of a write only reads, so that a fault
there, or in the last call, has changed nothing.
-/

namespace QueryAlgebra

namespace KeyValue

/-- The session with its faults taken away. -/
def Memory.healed (s : Memory) : Memory := { s with fault := fun _ _ => none }

theorem healthy_healed (s : Memory) : Healthy s.healed := ⟨rfl⟩

section Follows

variable {α β : Type}

/-- **A computation follows the session without faults,** or it fails with a fault of the storage
    and has changed nothing. -/
def Follows (x : Session α) : Prop :=
  ∀ s : Memory, x.on s.healed = ((x.on s).1, (x.on s).2.healed) ∨
    (∃ message, (x.on s).1 = .error (.storage message)) ∧ (x.on s).2.content = s.content

theorem Follows.pure (a : α) : Follows (pure a : Session α) := fun _ => Or.inl rfl

theorem Follows.throw (e : Error) : Follows (throw e : Session α) := fun _ => Or.inl rfl

theorem Follows.ofOutcome (x : Except Error α) : Follows (ofOutcome x : Session α) := by
  cases x with
  | ok a => exact Follows.pure a
  | error e => exact Follows.throw e

/-- A sequence follows when its first part only reads. -/
theorem Follows.bind {x : Session α} {f : α → Session β} (hx : Follows x)
    (hread : Reading sessionJournal x) (hf : ∀ a, Follows (f a)) : Follows (x >>= f) := by
  intro s
  have hfollows := hx s
  have hcontent : (x.on s).2.content = s.content := (hread s).1
  rw [Session.on_bind, Session.on_bind]
  rcases hon : x.on s with ⟨e | a, s'⟩ <;> rw [hon] at hfollows hcontent
  · refine hfollows.imp (fun htwin => ?_) fun ⟨⟨message, he⟩, _⟩ => ?_
    · rw [htwin]
    · exact ⟨⟨message, congrArg Except.error (Except.error.inj he)⟩, hcontent⟩
  · obtain htwin | ⟨⟨message, he⟩, -⟩ := hfollows
    · rw [htwin]
      exact (hf a s').imp_right fun ⟨he, hkept⟩ => ⟨he, hkept.trans hcontent⟩
    · cases he

/-- A result that is answered when a write succeeds. -/
theorem Follows.answer {x : Session α} (hx : Follows x) (b : β) :
    Follows (x >>= fun _ => Pure.pure b) := by
  intro s
  have hfollows := hx s
  rw [Session.on_bind, Session.on_bind]
  rcases hon : x.on s with ⟨e | a, s'⟩ <;> rw [hon] at hfollows
  · refine hfollows.imp (fun htwin => ?_) fun ⟨⟨message, he⟩, hkept⟩ => ?_
    · rw [htwin]
    · exact ⟨⟨message, congrArg Except.error (Except.error.inj he)⟩, hkept⟩
  · obtain htwin | ⟨⟨message, he⟩, -⟩ := hfollows
    · rw [htwin]
      exact Or.inl rfl
    · cases he

/-- **What is known of sessions without faults is known of all,** if it is true of a fault. -/
theorem Follows.leads {Q : Except Error α → Content → Prop} {m : Content} {x : Session α}
    (hx : Follows x) (hleads : Leads Q m x) (hfault : ∀ message, Q (.error (.storage message)) m)
    {s : Memory} (hm : s.content = m) : Q (x.on s).1 (x.on s).2.content := by
  obtain htwin | ⟨⟨message, he⟩, hkept⟩ := hx s
  · obtain ⟨-, hQ⟩ := hleads s.healed (healthy_healed s) hm
    rwa [htwin] at hQ
  · rw [he, hkept, hm]
    exact hfault message

/-! ## Calls -/

theorem follows_charge (call : StoreCall) : Follows (Memory.charge call) := by
  intro s
  have hon : (Memory.charge call).on s = _ := on_charge_any call s
  rw [hon, on_charge (healthy_healed s)]
  cases s.fault call (s.calls.count call) with
  | none => exact Or.inl rfl
  | some message => exact Or.inr ⟨⟨message, rfl⟩, rfl⟩

theorem reading_charge {call : StoreCall} (hcall : call ≠ .batch) :
    Reading sessionJournal (Memory.charge call) := by
  intro s
  rw [on_charge_any]
  exact ⟨rfl, List.count_cons_of_ne hcall⟩

theorem follows_get (key : String) : Follows (Memory.store.get key) :=
  (follows_charge .get).bind (reading_charge (by decide)) fun _ _ => Or.inl rfl

theorem follows_freshId : Follows Memory.store.freshId := fun _ => Or.inl rfl

theorem follows_batch (writes : List Write) : Follows (Memory.store.batch writes) := by
  intro s
  have hon : (Memory.store.batch writes).on s = _ := on_batch_any writes s
  rw [hon, on_batch (healthy_healed s)]
  cases s.fault .batch (s.calls.count .batch) with
  | none => exact Or.inl rfl
  | some message => exact Or.inr ⟨⟨message, rfl⟩, rfl⟩

/-! ## Inserts -/

section Tables

variable {t : Table Session} (ht : t.store = Memory.store)

include ht

theorem follows_indexes : Follows t.indexes := by
  unfold Table.indexes loadIndexes
  rw [ht]
  refine (follows_get _).bind (session_reliable.reading_get _) fun text => ?_
  cases text with
  | none => exact Follows.throw _
  | some text => exact Follows.ofOutcome _

theorem follows_fetch (key : Value) : Follows (t.fetch key) := by
  unfold Table.fetch
  rw [ht]
  refine (follows_get _).bind (session_reliable.reading_get _) fun text => ?_
  cases text with
  | none => exact Follows.pure _
  | some text => exact (Follows.ofOutcome _).bind (Reading.ofOutcome _) fun _ => Follows.pure _

theorem follows_lookup (field : String) (v : Value) :
    Follows (lookup t.store t.name field v) := by
  unfold lookup
  rw [ht]
  refine (follows_get _).bind (session_reliable.reading_get _) fun text => ?_
  cases text with
  | none => exact Follows.pure _
  | some text => exact Follows.ofOutcome _

theorem reliable_table : Reliable sessionJournal t.store := ht ▸ session_reliable

theorem follows_entryChange (field : String) (change : List Value → List Value)
    (v : Option Value) : Follows (entryChange t.store t.name field change v) := by
  cases v with
  | none => exact Follows.pure _
  | some v =>
    exact (follows_lookup ht field v).bind (reading_lookup (reliable_table ht) field v)
      fun _ => Follows.pure _

theorem follows_indexWrites (key : Value) (old new : Option Fields) (fields : List String) :
    Follows (indexWrites t.store t.name key old new fields) := by
  have hfield (field : String) : Follows (fieldWrites t.store t.name key old new field) := by
    unfold fieldWrites
    dsimp only
    split_ifs
    · exact Follows.pure _
    · have hread (change : List Value → List Value) (v : Option Value) :=
        reading_entryChange (reliable_table ht) field change v
      exact (follows_entryChange ht field _ _).bind (hread _ _) fun _ =>
        (follows_entryChange ht field _ _).bind (hread _ _) fun _ => Follows.pure _
  induction fields with
  | nil => exact Follows.pure _
  | cons field fields ih =>
    refine (hfield field).bind (reading_fieldWrites (reliable_table ht) key old new field)
      fun _ => ih.bind ?_ fun _ => Follows.pure _
    exact reading_indexWrites (reliable_table ht) key old new fields

theorem follows_commit (indexes : IndexList) (key : Value) (old new : Option Fields) :
    Follows (commit t.store t.name indexes key old new) := by
  refine (follows_indexWrites ht key old new _).bind
    (reading_indexWrites (reliable_table ht) key old new _) fun writes => ?_
  rw [ht]
  exact follows_batch _

theorem follows_freshKey (attempts : Nat) : Follows (t.freshKey attempts) := by
  induction attempts with
  | zero => exact Follows.throw _
  | succ attempts ih =>
    unfold Table.freshKey
    rw [ht]
    refine follows_freshId.bind session_reliable.reading_freshId fun id => ?_
    refine (follows_fetch ht _).bind (reading_fetch (reliable_table ht) _) fun doc => ?_
    cases doc with
    | none => exact Follows.pure _
    | some doc => exact ih

theorem follows_keyOf (primaryKey : String) (doc : Fields) :
    Follows (t.keyOf primaryKey doc) := by
  unfold Table.keyOf
  split
  · exact Follows.pure _
  · exact (follows_freshKey ht _).bind (reading_freshKey (reliable_table ht) _)
      fun _ => Follows.pure _

/-- **The insert of a document follows the session without faults.** -/
theorem follows_insertOne (indexes : IndexList) (conflict : Conflict) (doc : Fields) :
    Follows (t.insertOne indexes conflict doc) := by
  refine (follows_keyOf ht _ doc).bind (reading_keyOf (reliable_table ht) _ doc) fun target => ?_
  refine (follows_fetch ht target.1).bind (reading_fetch (reliable_table ht) _) fun stored => ?_
  cases stored with
  | none => exact (follows_commit ht _ _ _ _).answer _
  | some old =>
    refine (Follows.ofOutcome _).bind (Reading.ofOutcome _) fun new => ?_
    unfold Table.writeOver
    split_ifs
    · exact Follows.pure _
    · exact (follows_commit ht _ _ _ _).answer _

end Tables

end Follows

end KeyValue

end QueryAlgebra
