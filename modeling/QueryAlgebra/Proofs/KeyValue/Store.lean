import Mathlib.Data.List.TakeWhile
import QueryAlgebra.KeyValue.Store
import QueryAlgebra.Proofs.KeyValue.OrderedMap
import QueryAlgebra.Proofs.Outcome

/-!
# Sessions without faults

What a batch of writes leaves under a key, and what computations do to a session in which no call
fails.

* `Content.read_applyAll_of_mem`, `Content.read_applyAll_of_not_mem`: writes that agree on a key set
  it, writes of other keys leave it. `Content.Settles` is both in one.
* `Content.mem_startingWith`: a scan answers the entries whose keys begin with a text.
* `Reads`: a computation that answers what a snapshot of the content answers, and changes nothing.
  The same program runs on a snapshot (`Snapshot.store`), so no second text of it is needed.
* `Leads`: from a content a computation leads to an answer and a content that stand in a relation.
* `Keeps`: it leads to contents with a property, whether it succeeds or fails.
-/

namespace QueryAlgebra

namespace KeyValue

/-! ## 1. Contents -/

/-- The key that a write is about. -/
def Write.key : Write → String
  | .put k _ => k
  | .del k => k

/-- What a write leaves under its key. -/
def Write.value : Write → Option String
  | .put _ v => some v
  | .del _ => none

namespace Content

variable {m : Content}

theorem sorted_apply (hs : OrderedMap.Sorted m) (w : Write) : OrderedMap.Sorted (m.apply w) := by
  cases w with
  | put k v => exact OrderedMap.sorted_put hs _ _
  | del k => exact OrderedMap.sorted_del hs _

theorem sorted_applyAll (hs : OrderedMap.Sorted m) (ws : List Write) :
    OrderedMap.Sorted (m.applyAll ws) := by
  unfold applyAll
  induction ws generalizing m with
  | nil => exact hs
  | cons w ws ih => exact ih (sorted_apply hs w)

theorem read_apply (hs : OrderedMap.Sorted m) (w : Write) (k : String) :
    (m.apply w).read k = if w.key = k then w.value else m.read k := by
  have hkey : ∀ k₀ : String, k₀.toList = k.toList ↔ k₀ = k := fun _ => String.toList_inj
  cases w with
  | put k₀ v => exact (OrderedMap.get?_put m _ _ v).trans (if_congr (hkey k₀) rfl rfl)
  | del k₀ => exact (OrderedMap.get?_del hs _ _).trans (if_congr (hkey k₀) rfl rfl)

/-- **Writes of other keys leave a key as it is.** -/
theorem read_applyAll_of_not_mem (hs : OrderedMap.Sorted m) {ws : List Write} {k : String}
    (h : ∀ w ∈ ws, w.key ≠ k) : (m.applyAll ws).read k = m.read k := by
  induction ws generalizing m with
  | nil => rfl
  | cons w ws ih =>
    obtain ⟨hw, hws⟩ := List.forall_mem_cons.mp h
    show (applyAll (m.apply w) ws).read k = _
    rw [ih (sorted_apply hs w) hws, read_apply hs, if_neg hw]

/-- What a written key holds is the value of one of its writes. -/
theorem exists_read_applyAll (hs : OrderedMap.Sorted m) {ws : List Write} {k : String}
    (hex : ∃ w ∈ ws, w.key = k) : ∃ w ∈ ws, w.key = k ∧ (m.applyAll ws).read k = w.value := by
  induction ws generalizing m with
  | nil =>
    obtain ⟨w, hw, -⟩ := hex
    cases hw
  | cons w ws ih =>
    by_cases hlater : ∃ w' ∈ ws, w'.key = k
    · obtain ⟨w', hw', hkey, hread⟩ := ih (sorted_apply hs w) hlater
      exact ⟨w', List.mem_cons_of_mem _ hw', hkey, hread⟩
    · have hother : ∀ w' ∈ ws, w'.key ≠ k := fun w' hw' heq => hlater ⟨w', hw', heq⟩
      obtain ⟨w', hw', hkey⟩ := hex
      rcases List.mem_cons.mp hw' with rfl | hw'
      · refine ⟨w', List.mem_cons_self, hkey, ?_⟩
        show (applyAll (m.apply w') ws).read k = _
        rw [read_applyAll_of_not_mem (sorted_apply hs w') hother, read_apply hs, if_pos hkey]
      · exact absurd hkey (hother w' hw')

/-- **Writes that agree on a key set it.** -/
theorem read_applyAll_of_mem (hs : OrderedMap.Sorted m) {ws : List Write} {k : String}
    {x : Option String} (hex : ∃ w ∈ ws, w.key = k) (h : ∀ w ∈ ws, w.key = k → w.value = x) :
    (m.applyAll ws).read k = x := by
  obtain ⟨w, hw, hkey, hread⟩ := exists_read_applyAll hs hex
  rw [hread, h w hw hkey]

/-- **A scan answers the entries whose keys begin with a text.** -/
theorem mem_startingWith (hs : OrderedMap.Sorted m) {start : String} {e : String × String} :
    e ∈ m.startingWith start ↔ m.read e.1 = some e.2 ∧ start.toList <+: e.1.toList := by
  unfold startingWith read
  rw [List.mem_map]
  constructor
  · rintro ⟨stored, hmem, rfl⟩
    obtain ⟨hin, hprefix⟩ := (OrderedMap.mem_under hs).mp hmem
    rw [String.toList_ofList]
    exact ⟨OrderedMap.get?_of_mem hs hin, hprefix⟩
  · rintro ⟨hread, hprefix⟩
    exact ⟨(e.1.toList, e.2), (OrderedMap.mem_under hs).mpr ⟨OrderedMap.mem_of_get? hread, hprefix⟩,
      by simp⟩

/-- What a scan answers begins as it was asked, whether the content is in order or not. -/
theorem prefix_of_mem_startingWith {start : String} {e : String × String}
    (he : e ∈ m.startingWith start) : start.toList <+: e.1.toList := by
  obtain ⟨stored, hmem, rfl⟩ := List.mem_map.mp he
  have hprefix : start.toList.isPrefixOf stored.1 = true :=
    List.mem_takeWhile_imp (p := fun e : List Char × String => start.toList.isPrefixOf e.1) hmem
  rw [String.toList_ofList]
  exact List.isPrefixOf_iff_prefix.mp hprefix

/-- **What is stored under a text decides what a scan of it answers:** the entries that are left. -/
theorem startingWith_filter {m' : Content} (hs : OrderedMap.Sorted m) (hs' : OrderedMap.Sorted m')
    {start : String} (p : String → Bool) (h : ∀ key : String, start.toList <+: key.toList →
      m'.read key = if p key then m.read key else none) :
    m'.startingWith start = (m.startingWith start).filter fun e => p e.1 := by
  have hget : ∀ k, start.toList <+: k → OrderedMap.get? m' k
      = if p (String.ofList k) then OrderedMap.get? m k else none := by
    intro k hk
    have hread := h (String.ofList k) (by rwa [String.toList_ofList])
    unfold read at hread
    rwa [String.toList_ofList] at hread
  unfold startingWith
  rw [List.filter_map, OrderedMap.eq_of_mem_iff (OrderedMap.sorted_under hs' _)
    ((OrderedMap.sorted_under hs _).filter _)]
  intro e
  rw [OrderedMap.mem_under hs', List.mem_filter, OrderedMap.mem_under hs,
    OrderedMap.mem_iff_get? hs', OrderedMap.mem_iff_get? hs, and_right_comm]
  refine and_congr_left fun hprefix => ?_
  rw [hget e.1 hprefix, Function.comp_apply]
  cases p (String.ofList e.1) <;> simp

theorem startingWith_congr {m' : Content} (hs : OrderedMap.Sorted m) (hs' : OrderedMap.Sorted m')
    {start : String} (h : ∀ key : String, start.toList <+: key.toList → m'.read key = m.read key) :
    m'.startingWith start = m.startingWith start := by
  rw [startingWith_filter hs hs' (fun _ => true) h, List.filter_true]

theorem startingWith_eq_nil (hs : OrderedMap.Sorted m) {start : String}
    (h : ∀ key : String, start.toList <+: key.toList → m.read key = none) :
    m.startingWith start = [] := by
  refine List.eq_nil_iff_forall_not_mem.mpr fun e he => ?_
  obtain ⟨hread, hprefix⟩ := (mem_startingWith hs).mp he
  rw [h e.1 hprefix] at hread
  cases hread

/-- **Writes that set a key,** in whatever order: every write of it leaves what is given there, and
without one something else holds. -/
structure Sets (ws : List Write) (k : String) (x : Option String) (U : Prop) : Prop where
  written : ∀ w ∈ ws, w.key = k → w.value = x
  untouched : (∀ w ∈ ws, w.key ≠ k) → U

/-- After the writes a key holds what is given: without a write of it, it is there already. -/
abbrev Settles (m : Content) (ws : List Write) (k : String) (x : Option String) : Prop :=
  Sets ws k x (m.read k = x)

section Settle

variable {ws ws' : List Write} {k : String} {x : Option String} {U : Prop}

theorem Sets.read (h : Settles m ws k x) (hs : OrderedMap.Sorted m) :
    (m.applyAll ws).read k = x := by
  by_cases hex : ∃ w ∈ ws, w.key = k
  · exact read_applyAll_of_mem hs hex h.written
  · have hother : ∀ w ∈ ws, w.key ≠ k := fun w hw heq => hex ⟨w, hw, heq⟩
    rw [read_applyAll_of_not_mem hs hother, h.untouched hother]

theorem Sets.mono {V : Prop} (h : Sets ws k x U) (hUV : U → V) : Sets ws k x V :=
  ⟨h.written, fun hother => hUV (h.untouched hother)⟩

theorem Sets.append (h : Sets ws k x U) (h' : Sets ws' k x U) : Sets (ws ++ ws') k x U := by
  refine ⟨fun w hw => ?_,
    fun hother => h.untouched (fun w hw => hother w (List.mem_append_left _ hw))⟩
  rcases List.mem_append.mp hw with hw | hw
  · exact h.written w hw
  · exact h'.written w hw

theorem sets_of_not_mem (hU : U) (h : ∀ w ∈ ws, w.key ≠ k) : Sets ws k x U :=
  ⟨fun w hw heq => absurd heq (h w hw), fun _ => hU⟩

theorem Sets.append_other (h : Sets ws k x U) (h' : ∀ w ∈ ws', w.key ≠ k) :
    Sets (ws ++ ws') k x U := by
  refine ⟨fun w hw heq => ?_,
    fun hother => h.untouched (fun w hw => hother w (List.mem_append_left _ hw))⟩
  rcases List.mem_append.mp hw with hw | hw
  · exact h.written w hw heq
  · exact absurd heq (h' w hw)

theorem Sets.other_append (h : ∀ w ∈ ws, w.key ≠ k) (h' : Sets ws' k x U) :
    Sets (ws ++ ws') k x U := by
  refine ⟨fun w hw heq => ?_,
    fun hother => h'.untouched (fun w hw => hother w (List.mem_append_right _ hw))⟩
  rcases List.mem_append.mp hw with hw | hw
  · exact absurd heq (h w hw)
  · exact h'.written w hw heq

end Settle

theorem nodup_startingWith (hs : OrderedMap.Sorted m) (start : String) :
    ((m.startingWith start).map Prod.fst).Nodup := by
  unfold startingWith
  rw [List.map_map]
  refine List.Pairwise.map _ (fun e f hef heq => ?_) (OrderedMap.sorted_under hs start.toList)
  exact absurd (String.ofList_injective heq) (ne_of_lt hef)

end Content

/-! ## 2. Sessions -/

/-- The outcome of a computation in a session, and the session afterwards. -/
def Session.on {α : Type} (x : Session α) (s : Memory) : Except Error α × Memory := x.run.run s

/-- A session in which no call fails. -/
structure Healthy (s : Memory) : Prop where
  fault : s.fault = fun _ _ => none

namespace Session

variable {α β : Type}

@[simp] theorem on_pure (a : α) (s : Memory) : (pure a : Session α).on s = (.ok a, s) := rfl

@[simp] theorem on_throw (e : Error) (s : Memory) :
    (throw e : Session α).on s = (.error e, s) := rfl

theorem on_bind (x : Session α) (f : α → Session β) (s : Memory) :
    (x >>= f).on s = match x.on s with
      | (.ok a, s') => (f a).on s'
      | (.error e, s') => (.error e, s') := by
  refine (Stateful.on_bind x f s).trans ?_
  unfold Session.on Stateful.on
  rcases x.run.run s with ⟨a | e, s'⟩ <;> rfl

/-- A sequence answers what its second part answers after the first. -/
theorem ok_of_bind {x : Session α} {f : α → Session β} {s : Memory} {b : β}
    (h : ((x >>= f).on s).1 = .ok b) :
    ∃ a s', (x.on s).1 = .ok a ∧ ((f a).on s').1 = .ok b := by
  rw [on_bind] at h
  rcases hon : x.on s with ⟨e | a, s'⟩ <;> rw [hon] at h
  · cases h
  · exact ⟨a, s', rfl, h⟩

theorem on_tryCatch (x : Session α) (f : Error → Session α) (s : Memory) :
    (tryCatch x f).on s = match x.on s with
      | (.ok a, s') => (.ok a, s')
      | (.error e, s') => (f e).on s' := by
  refine (Stateful.on_tryCatch x f s).trans ?_
  unfold Session.on Stateful.on
  rcases x.run.run s with ⟨a | e, s'⟩ <;> rfl

theorem on_ofOutcome (x : Except Error α) (s : Memory) :
    (ofOutcome x : Session α).on s = (x, s) := Stateful.on_ofOutcome x s

end Session

/-- The session afterwards has the content of the one before, and is as healthy. -/
structure Kept (s s' : Memory) : Prop where
  content : s'.content = s.content
  healthy : Healthy s'

theorem Kept.refl {s : Memory} (h : Healthy s) : Kept s s := ⟨rfl, h⟩

theorem Kept.trans {s₁ s₂ s₃ : Memory} (h : Kept s₁ s₂) (h' : Kept s₂ s₃) : Kept s₁ s₃ :=
  ⟨h'.content.trans h.content, h'.healthy⟩

section Calls

variable {s : Memory} (h : Healthy s)

include h

theorem on_charge (call : StoreCall) :
    (Memory.charge call).on s = (.ok (), { s with calls := call :: s.calls }) := by
  obtain ⟨content, fault, calls, batches, ids, idsTaken⟩ := s
  obtain rfl : fault = fun _ _ => none := h.fault
  rfl

theorem kept_call (call : StoreCall) : Kept s { s with calls := call :: s.calls } :=
  ⟨rfl, ⟨h.fault⟩⟩

theorem on_get (key : String) :
    (Memory.store.get key).on s
      = (.ok (s.content.read key), { s with calls := .get :: s.calls }) := by
  show (Memory.charge .get >>= _).on s = _
  rw [Session.on_bind, on_charge h]
  rfl

theorem on_scan (start : String) :
    (Memory.store.scan start).on s
      = (.ok (s.content.startingWith start), { s with calls := .scan :: s.calls }) := by
  show (Memory.charge .scan >>= _).on s = _
  rw [Session.on_bind, on_charge h]
  rfl

theorem on_batch (writes : List Write) :
    (Memory.store.batch writes).on s
      = (.ok (), { s with
          calls := .batch :: s.calls
          content := s.content.applyAll writes
          batches := writes :: s.batches }) := by
  show (Memory.charge .batch >>= _).on s = _
  rw [Session.on_bind, on_charge h]
  rfl

end Calls

/-! ## 3. Reading -/

/-- A computation that does not change the content, and keeps a session healthy. -/
def Inert {α : Type} (x : Session α) : Prop := ∀ s, Healthy s → Kept s (x.on s).2

/-- A value that a computation may answer on a content. -/
def Answers {α : Type} (x : Session α) (m : Content) (a : α) : Prop :=
  ∃ s, Healthy s ∧ s.content = m ∧ (x.on s).1 = .ok a

/-- A computation on a content that is not changed. -/
abbrev Snapshot := ReaderT Content (Except Error)

/-- The store of a snapshot: it can be read only, and has no fresh identifiers. -/
def Snapshot.store : Store Snapshot where
  get key := fun m => .ok (m.read key)
  put _ _ := throw (Error.storage "read only")
  del _ := throw (Error.storage "read only")
  batch _ := throw (Error.storage "read only")
  scan start := fun m => .ok (m.startingWith start)
  freshId := throw (Error.storage "read only")

/-- **A computation that answers what a snapshot of the content answers,** and changes nothing. -/
def Reads {α : Type} (x : Session α) (f : Snapshot α) : Prop :=
  ∀ s, Healthy s → (x.on s).1 = f s.content ∧ Kept s (x.on s).2

section Combine

variable {α β : Type}

theorem inert_freshId : Inert Memory.store.freshId := fun _ h => ⟨rfl, ⟨h.fault⟩⟩

theorem Inert.pure (a : α) : Inert (pure a : Session α) := fun _ h => Kept.refl h

theorem Inert.throw (e : Error) : Inert (throw e : Session α) := fun _ h => Kept.refl h

theorem Inert.ofOutcome (x : Except Error α) : Inert (ofOutcome x : Session α) := by
  intro s h
  rw [Session.on_ofOutcome]
  exact Kept.refl h

theorem Inert.bind {x : Session α} {f : α → Session β} (hx : Inert x) (hf : ∀ a, Inert (f a)) :
    Inert (x >>= f) := by
  intro s h
  have hk := hx s h
  rw [Session.on_bind]
  rcases hon : x.on s with ⟨a | e, s'⟩ <;> rw [hon] at hk
  · exact hk
  · exact hk.trans (hf _ s' hk.healthy)

/-- What a sequence answers, its parts answer one after the other. -/
theorem Answers.of_bind {x : Session α} {f : α → Session β} {m : Content} {b : β} (hx : Inert x)
    (h : Answers (x >>= f) m b) : ∃ a, Answers x m a ∧ Answers (f a) m b := by
  obtain ⟨s, hs, rfl, hon⟩ := h
  have hk := hx s hs
  rw [Session.on_bind] at hon
  rcases hx : x.on s with ⟨e | a, s'⟩ <;> rw [hx] at hon hk
  · cases hon
  · exact ⟨a, ⟨s, hs, rfl, by rw [hx]⟩, s', hk.healthy, hk.content, hon⟩

theorem Answers.of_pure {a b : α} {m : Content} (h : Answers (pure a) m b) : a = b := by
  obtain ⟨s, -, -, hon⟩ := h
  exact Except.ok.inj hon

theorem Reads.inert {x : Session α} {f : Snapshot α} (h : Reads x f) : Inert x :=
  fun s hs => (h s hs).2

theorem Reads.of_answers {x : Session α} {f : Snapshot α} (h : Reads x f) {m : Content} {a : α}
    (ha : Answers x m a) : f m = .ok a := by
  obtain ⟨s, hs, rfl, hon⟩ := ha
  rw [← (h s hs).1, hon]

theorem Reads.pure (a : α) : Reads (pure a) (pure a) := fun _ h => ⟨rfl, Kept.refl h⟩

theorem Reads.throw (e : Error) : Reads (throw e : Session α) (throw e) :=
  fun _ h => ⟨rfl, Kept.refl h⟩

theorem Reads.ofOutcome (x : Except Error α) : Reads (ofOutcome x) (ofOutcome x) := by
  intro s h
  rw [Session.on_ofOutcome]
  refine ⟨?_, Kept.refl h⟩
  cases x <;> rfl

theorem Reads.bind {x : Session α} {f : Snapshot α} {g : α → Session β} {k : α → Snapshot β}
    (hx : Reads x f) (hg : ∀ a, Reads (g a) (k a)) : Reads (x >>= g) (f >>= k) := by
  intro s h
  obtain ⟨hanswer, hkept⟩ := hx s h
  show _ = (f s.content >>= fun a => k a s.content) ∧ _
  rw [Session.on_bind, ← hanswer]
  rcases hon : x.on s with ⟨e | a, s'⟩ <;> rw [hon] at hkept
  · exact ⟨rfl, hkept⟩
  · obtain ⟨hnext, hkept'⟩ := hg a s' hkept.healthy
    exact ⟨by rw [hnext, hkept.content]; rfl, hkept.trans hkept'⟩

theorem Reads.map {x : Session α} {f : Snapshot α} (hx : Reads x f) (g : α → β) :
    Reads (do return g (← x)) (fun m => g <$> f m) := by
  intro s h
  obtain ⟨hanswer, hkept⟩ := hx s h
  show _ = g <$> f s.content ∧ _
  rw [Session.on_bind, ← hanswer]
  rcases hon : x.on s with ⟨e | a, s'⟩ <;> rw [hon] at hkept
  · exact ⟨rfl, hkept⟩
  · exact ⟨rfl, hkept⟩

theorem Reads.get (key : String) : Reads (Memory.store.get key) (Snapshot.store.get key) := by
  intro s h
  rw [on_get h]
  exact ⟨rfl, kept_call h .get⟩

theorem Reads.scan (start : String) :
    Reads (Memory.store.scan start) (Snapshot.store.scan start) := by
  intro s h
  rw [on_scan h]
  exact ⟨rfl, kept_call h .scan⟩

end Combine

/-! ## 4. Answers and what they leave -/

/-- From a content a computation leads to an answer and a content that stand in a relation. -/
def Leads {α : Type} (Q : Except Error α → Content → Prop) (m : Content) (x : Session α) : Prop :=
  ∀ s, Healthy s → s.content = m → Healthy (x.on s).2 ∧ Q (x.on s).1 (x.on s).2.content

section Lead

variable {α β : Type} {Q : Except Error α → Content → Prop} {R : Except Error β → Content → Prop}
  {m : Content}

theorem Leads.mono {Q' : Except Error α → Content → Prop} {x : Session α} (hx : Leads Q m x)
    (h : ∀ r m', Q r m' → Q' r m') : Leads Q' m x := by
  intro s hs hm
  obtain ⟨hs', hQ⟩ := hx s hs hm
  exact ⟨hs', h _ _ hQ⟩

theorem Leads.pure {a : α} (h : Q (.ok a) m) : Leads Q m (pure a) := by
  rintro s hs rfl
  exact ⟨hs, h⟩

theorem Leads.ofOutcome {x : Except Error α} (h : Q x m) : Leads Q m (ofOutcome x) := by
  rintro s hs rfl
  rw [Session.on_ofOutcome]
  exact ⟨hs, h⟩

theorem Leads.bind {x : Session α} {f : α → Session β} (hx : Leads Q m x)
    (herror : ∀ e m', Q (.error e) m' → R (.error e) m')
    (hf : ∀ a m', Q (.ok a) m' → Leads R m' (f a)) : Leads R m (x >>= f) := by
  intro s hs hm
  obtain ⟨hs', hQ⟩ := hx s hs hm
  rw [Session.on_bind]
  rcases hon : x.on s with ⟨e | a, s'⟩ <;> rw [hon] at hs' hQ
  · exact ⟨hs', herror e _ hQ⟩
  · exact hf a s'.content hQ s' hs' rfl

theorem Leads.bind_inert {x : Session α} {f : α → Session β} (hx : Inert x)
    (herror : ∀ e, R (.error e) m) (hf : ∀ a, Answers x m a → Leads R m (f a)) :
    Leads R m (x >>= f) := by
  rintro s hs rfl
  have hk := hx s hs
  rw [Session.on_bind]
  rcases hon : x.on s with ⟨e | a, s'⟩ <;> rw [hon] at hk
  · exact ⟨hk.healthy, hk.content ▸ herror e⟩
  · exact hf a ⟨s, hs, rfl, by rw [hon]⟩ s' hk.healthy hk.content

theorem Leads.bind_reads {x : Session α} {g : Snapshot α} {f : α → Session β} (hx : Reads x g)
    (herror : ∀ e, R (.error e) m) (hf : ∀ a, g m = .ok a → Leads R m (f a)) :
    Leads R m (x >>= f) :=
  Leads.bind_inert hx.inert herror (fun a ha => hf a (hx.of_answers ha))

/-- A read of which the answer is known. -/
theorem Leads.bind_answer {x : Session α} {g : Snapshot α} {f : α → Session β} (hx : Reads x g)
    {a : α} (ha : g m = .ok a) (hf : Leads R m (f a)) : Leads R m (x >>= f) := by
  intro s hs hm
  obtain ⟨hanswer, hkept⟩ := hx s hs
  rw [hm, ha] at hanswer
  rw [Session.on_bind]
  rcases hon : x.on s with ⟨r, s'⟩
  rw [hon] at hanswer hkept
  subst hanswer
  exact hf s' hkept.healthy (hkept.content.trans hm)

theorem Leads.tryCatch {Q' : Except Error α → Content → Prop} {x : Session α}
    {f : Error → Session α} (hx : Leads Q m x) (hok : ∀ a m', Q (.ok a) m' → Q' (.ok a) m')
    (hf : ∀ e m', Q (.error e) m' → Leads Q' m' (f e)) : Leads Q' m (tryCatch x f) := by
  intro s hs hm
  obtain ⟨hs', hQ⟩ := hx s hs hm
  rw [Session.on_tryCatch]
  rcases hon : x.on s with ⟨e | a, s'⟩ <;> rw [hon] at hs' hQ
  · exact hf e s'.content hQ s' hs' rfl
  · exact ⟨hs', hok a _ hQ⟩

theorem Leads.batch {Q : Except Error Unit → Content → Prop} {writes : List Write}
    (h : Q (.ok ()) (m.applyAll writes)) : Leads Q m (Memory.store.batch writes) := by
  rintro s hs rfl
  rw [on_batch hs]
  exact ⟨⟨hs.fault⟩, h⟩

end Lead

/-! ## 5. Keeping a property of the content -/

/-- From a content a computation leads to contents with a property. -/
def Keeps {α : Type} (P : Content → Prop) (m : Content) (x : Session α) : Prop :=
  ∀ s, Healthy s → s.content = m → Healthy (x.on s).2 ∧ P (x.on s).2.content

section Keep

variable {α β : Type} {P : Content → Prop} {m : Content}

theorem keeps_iff {x : Session α} : Keeps P m x ↔ Leads (fun _ => P) m x := Iff.rfl

theorem Leads.keeps {Q : Except Error α → Content → Prop} {x : Session α} (hx : Leads Q m x)
    (h : ∀ r m', Q r m' → P m') : Keeps P m x := keeps_iff.mpr (hx.mono h)

theorem Keeps.mono {Q : Content → Prop} {x : Session α} (hx : Keeps P m x)
    (hPQ : ∀ m', P m' → Q m') : Keeps Q m x := (keeps_iff.mp hx).keeps (fun _ => hPQ)

theorem Keeps.of_inert {x : Session α} (hx : Inert x) (hP : P m) : Keeps P m x := by
  rintro s hs rfl
  have hk := hx s hs
  exact ⟨hk.healthy, hk.content ▸ hP⟩

theorem Keeps.bind_inert {x : Session α} {f : α → Session β} (hx : Inert x) (hP : P m)
    (hf : ∀ a, Answers x m a → Keeps P m (f a)) : Keeps P m (x >>= f) :=
  keeps_iff.mpr (Leads.bind_inert hx (fun _ => hP) (fun a ha => keeps_iff.mp (hf a ha)))

theorem Keeps.bind_reads {x : Session α} {g : Snapshot α} {f : α → Session β} (hx : Reads x g)
    (hP : P m) (hf : ∀ a, g m = .ok a → Keeps P m (f a)) : Keeps P m (x >>= f) :=
  Keeps.bind_inert hx.inert hP (fun a ha => hf a (hx.of_answers ha))

theorem Keeps.bind {x : Session α} {f : α → Session β} (hx : Keeps P m x)
    (hf : ∀ m' a, P m' → Keeps P m' (f a)) : Keeps P m (x >>= f) :=
  keeps_iff.mpr ((keeps_iff.mp hx).bind (fun _ _ hP => hP) (fun a m' hP => keeps_iff.mp (hf m' a hP)))

theorem Keeps.tryCatch {x : Session α} {f : Error → Session α} (hx : Keeps P m x)
    (hf : ∀ m' e, P m' → Keeps P m' (f e)) : Keeps P m (tryCatch x f) :=
  keeps_iff.mpr
    ((keeps_iff.mp hx).tryCatch (fun _ _ hP => hP) (fun e m' hP => keeps_iff.mp (hf m' e hP)))

theorem Keeps.batch {writes : List Write} (hP : P (m.applyAll writes)) :
    Keeps P m (Memory.store.batch writes) := keeps_iff.mpr (Leads.batch hP)

end Keep

end KeyValue

end QueryAlgebra
