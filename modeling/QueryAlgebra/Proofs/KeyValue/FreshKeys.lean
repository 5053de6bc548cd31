import QueryAlgebra.Proofs.KeyValue.Faults
import QueryAlgebra.Proofs.KeyValue.Legibility
import QueryAlgebra.Proofs.Table.Batches

/-!
# Generated keys

A document without a primary key is put under an identifier of the supply. The supply promises
nothing: it may repeat itself, and it may answer identifiers that are taken. So the insert looks up
each identifier before it uses it, and gives up after some attempts. Whatever the supply answers, in
whichever mode and whichever calls fail, a row is added under an identifier under which there was
none, or nothing is written.

* `AddsRow`: one row more, and nothing else but the index entries of its values.
* `freshKey_ok`, `freshKey_of_free`: the identifier that is taken is the first free one.
* `Generated`: what becomes of a document without a key.
* `insert_generates`: so it does in an insert of any documents, after whatever the others have done.
-/

namespace QueryAlgebra

namespace KeyValue

open Batch

/-! ## 1. One row more -/

/-- **A row is added under an identifier.** -/
structure AddsRow (t : String) (l : IndexList) (id : String) (row : Fields) (m m' : Content) :
    Prop where
  /-- No row stood under the identifier. -/
  free : m.read ((Space.primary t).key (.string id)) = none
  /-- The text of the row stands there. -/
  stored : m'.read ((Space.primary t).key (.string id)) = some (Value.object row).json
  /-- The rows of the table are those of before and this one. -/
  rows : (m'.startingWith (Space.primary t).stem).Perm
    (((Space.primary t).key (.string id), (Value.object row).json)
      :: m.startingWith (Space.primary t).stem)
  /-- Nothing else is written but entries of the values of the row. -/
  frame : ∀ k, k ≠ (Space.primary t).key (.string id) →
    (∀ f ∈ l.secondary, ∀ v, indexed (some row) f = some v → k ≠ (Space.index t f).key v) →
      m'.read k = m.read k

/-- The row is read as it was to be. -/
theorem AddsRow.read {t : String} {l : IndexList} {id : String} {row : Fields} {m m' : Content}
    (h : AddsRow t l id row m m') (hrow : row.Storable) :
    documentAt m' t (.string id) = .ok (some row) :=
  documentAt_of_read (fun _ heq => Option.some.inj heq ▸ hrow) h.stored

/-- Every other row is as it was, also those of other tables. -/
theorem AddsRow.other {t t' : String} {l : IndexList} {id p : String} {row : Fields}
    {m m' : Content} (h : AddsRow t l id row m m')
    (hp : (Space.primary t').named p ≠ (Space.primary t).key (.string id))
    (hplain : t' = t ∨ Plain t ∧ Plain t' ∧ ∀ f ∈ l.secondary, Plain f) :
    m'.read ((Space.primary t').named p) = m.read ((Space.primary t').named p) := by
  refine h.frame _ hp fun f hf v _ => ?_
  rcases hplain with rfl | ⟨ht, ht', hfields⟩
  · exact Space.row_ne_entry t' f p _
  · exact (Space.named_ne (Space.wellNamed_index ht (hfields f hf)) (Space.wellNamed_primary ht')
      (by simp) _ _).symm

/-- **The writes of a commit add a row where there was none.** -/
theorem addsRow_commit {t : String} {l : IndexList} {id : String} {row : Fields} {m : Content}
    {ws : List Write} (hs : OrderedMap.Sorted m)
    (hfree : m.read ((Space.primary t).key (.string id)) = none)
    (hws : indexWrites Snapshot.store t (.string id) none (some row) l.secondary m = .ok ws) :
    AddsRow t l id row m (m.applyAll (commitWrites t (.string id) (some row) ws)) where
  free := hfree
  stored := read_commit_row hs hws
  rows := by
    have hs' := Content.sorted_applyAll hs (commitWrites t (.string id) (some row) ws)
    have hnew : ((Space.primary t).key (.string id), (Value.object row).json)
        ∉ m.startingWith (Space.primary t).stem := by
      intro hmem
      obtain ⟨hread, -⟩ := (Space.mem_entries hs).mp hmem
      rw [hfree] at hread
      cases hread
    refine (List.perm_ext_iff_of_nodup (Content.nodup_startingWith hs' _).of_map
      (List.nodup_cons.mpr ⟨hnew, (Content.nodup_startingWith hs _).of_map⟩)).mpr ?_
    rintro ⟨k, text⟩
    rw [List.mem_cons, Space.mem_entries hs', Space.mem_entries hs]
    by_cases hk : k = (Space.primary t).key (.string id)
    · subst hk
      dsimp only
      rw [read_commit_row hs hws, hfree]
      constructor
      · rintro ⟨htext, -⟩
        exact Or.inl (congrArg _ (Option.some.inj htext).symm)
      · rintro (heq | ⟨hnone, -⟩)
        · exact ⟨congrArg some (Prod.mk.inj heq).2.symm, _, rfl⟩
        · cases hnone
    · have hother (hrow : ∃ p, k = (Space.primary t).named p) :
          (m.applyAll (commitWrites t (.string id) (some row) ws)).read k = m.read k := by
        obtain ⟨p, rfl⟩ := hrow
        exact read_commit_row_other hs hws fun heq => hk (congrArg _ heq)
      constructor
      · rintro ⟨hread, hrow⟩
        exact Or.inr ⟨(hother hrow).symm.trans hread, hrow⟩
      · rintro (heq | ⟨hread, hrow⟩)
        · exact absurd (Prod.mk.inj heq).1 hk
        · exact ⟨(hother hrow).trans hread, hrow⟩
  frame k hk hentry := by
    refine read_commit_other hs hws hk fun f hf v hv => ?_
    rcases hv with hv | hv
    · cases hv
    · exact hentry f hf v hv

/-! ## 2. The first free identifier -/

/-- The identifier that a session supplies after so many others. -/
def Memory.supplied (s : Memory) (k : Nat) : String := s.ids (s.idsTaken + k)

/-- The session after an attempt: an identifier has been taken, and looked up. -/
def Memory.next (s : Memory) : Memory :=
  { s with idsTaken := s.idsTaken + 1, calls := .get :: s.calls }

theorem healthy_next {s : Memory} (h : Healthy s) : Healthy s.next := ⟨h.fault⟩

theorem supplied_next (s : Memory) (k : Nat) : s.next.supplied k = s.supplied (k + 1) :=
  congrArg s.ids (Nat.succ_add_eq_add_succ s.idsTaken k)

section Tables

variable {t : Table Session} (ht : t.store = Memory.store) {s : Memory} (hs : Healthy s)

include ht hs

theorem on_fetch (key : Value) :
    (t.fetch key).on s
      = (documentAt s.content t.name key, { s with calls := .get :: s.calls }) := by
  unfold Table.fetch documentAt
  rw [ht, Session.on_bind, on_get hs]
  dsimp only
  cases s.content.read ((Space.primary t.name).key key) with
  | none => rfl
  | some text =>
    dsimp only
    rw [Session.on_bind, Session.on_ofOutcome]
    cases readDocument text <;> rfl

/-- An attempt takes the next identifier when it is free, and goes on when it is held. -/
theorem on_freshKey_succ (attempts : Nat) :
    (t.freshKey (attempts + 1)).on s =
      match documentAt s.content t.name (.string (s.supplied 0)) with
      | .error e => (.error e, s.next)
      | .ok none => (.ok (.string (s.supplied 0)), s.next)
      | .ok (some _) => (t.freshKey attempts).on s.next := by
  have hs₁ : Healthy { s with idsTaken := s.idsTaken + 1 } := ⟨hs.fault⟩
  have hid : t.store.freshId.on s
      = (.ok (s.supplied 0), { s with idsTaken := s.idsTaken + 1 }) := by
    rw [ht]
    rfl
  show (t.store.freshId >>= _).on s = _
  rw [Session.on_bind, hid]
  dsimp only
  rw [Session.on_bind, on_fetch ht hs₁]
  cases documentAt s.content t.name (.string (s.supplied 0)) with
  | error e => rfl
  | ok doc =>
    cases doc with
    | none => rfl
    | some doc => rfl

/-- **A key is only taken where it is free.** -/
theorem freshKey_ok {attempts : Nat} {key : Value}
    (hok : ((t.freshKey attempts).on s).1 = .ok key) :
    ∃ k < attempts, key = .string (s.supplied k) ∧ documentAt s.content t.name key = .ok none := by
  induction attempts generalizing s with
  | zero => cases hok
  | succ attempts ih =>
    rw [on_freshKey_succ ht hs] at hok
    cases hdoc : documentAt s.content t.name (.string (s.supplied 0)) with
    | error e =>
      rw [hdoc] at hok
      cases hok
    | ok doc =>
      rw [hdoc] at hok
      cases doc with
      | none =>
        cases hok
        exact ⟨0, Nat.succ_pos attempts, rfl, hdoc⟩
      | some doc =>
        obtain ⟨k, hk, hkey, hfree⟩ := ih (healthy_next hs) hok
        exact ⟨k + 1, Nat.succ_lt_succ hk, supplied_next s k ▸ hkey, hfree⟩

/-- **The first free identifier is taken,** when those before it are held by rows that can be
    read. -/
theorem freshKey_of_free {attempts k : Nat} (hk : k < attempts)
    (hheld : ∀ j < k, Found s.content t.name (.string (s.supplied j)))
    (hfree : documentAt s.content t.name (.string (s.supplied k)) = .ok none) :
    ((t.freshKey attempts).on s).1 = .ok (.string (s.supplied k)) := by
  induction attempts generalizing s k with
  | zero => exact absurd hk (Nat.not_lt_zero k)
  | succ attempts ih =>
    rw [on_freshKey_succ ht hs]
    cases k with
    | zero => rw [hfree]
    | succ k =>
      obtain ⟨doc, hdoc⟩ := hheld 0 (Nat.succ_pos k)
      rw [hdoc, ← supplied_next]
      refine ih (healthy_next hs) (Nat.lt_of_succ_lt_succ hk) (fun j hj => ?_) ?_
      · rw [supplied_next]
        exact hheld (j + 1) (Nat.succ_lt_succ hj)
      · rw [supplied_next]
        exact hfree

end Tables

/-! ## 3. One document -/

/-- A document has no primary key: the field is absent, or null. -/
def Keyless (primaryKey : String) (doc : Fields) : Prop :=
  ∀ v, doc.get? primaryKey = some v → v.isNull = true

/-- A document is answered as inserted, and is added as a row under an identifier. -/
def AddedUnder (t : String) (l : IndexList) (doc : Fields) (id : String) (m : Content)
    (r : Except Error WriteResult) (m' : Content) : Prop :=
  r = .ok { inserted := 1 } ∧ AddsRow t l id (doc.keyed l.primaryKey (.string id)) m m'

/-- A write fails, and writes nothing. -/
def Refused (m : Content) (r : Except Error WriteResult) (m' : Content) : Prop :=
  (∃ e, r = .error e) ∧ m' = m

/-- The supply of a session reaches a free identifier in time, after some that are held, and the
    index entries of the table can be read. -/
structure Reaches (t : Table Session) (l : IndexList) (s : Memory) (k : Nat) : Prop where
  healthy : Healthy s
  attempt : k < t.config.idAttempts
  held : ∀ j < k, Found s.content t.name (.string (s.supplied j))
  free : documentAt s.content t.name (.string (s.supplied k)) = .ok none
  entries : ∀ f ∈ l.secondary, ∀ v : Value, v.isNull = false →
    ∃ keys, lookup Snapshot.store t.name f v s.content = .ok keys

section Documents

variable {t : Table Session} (ht : t.store = Memory.store) {l : IndexList} {doc : Fields}

/-- A document without a key gets a fresh one. -/
theorem keyOf_keyless (hkeyless : Keyless l.primaryKey doc) :
    t.keyOf l.primaryKey doc = (do
      let key ← t.freshKey t.config.idAttempts
      return (key, doc.keyed l.primaryKey key)) := by
  unfold Table.keyOf
  split
  · next key hkey =>
    obtain ⟨hget, hnull⟩ := Option.filter_eq_some_iff.mp hkey
    rw [hkeyless key hget] at hnull
    cases hnull
  · rfl

include ht

/-- The batch of a commit under a free identifier adds a row. -/
theorem leads_rowBatch {m : Content} (hm : OrderedMap.Sorted m) {id : String}
    (hfree : documentAt m t.name (.string id) = .ok none) {ws : List Write}
    (hws : indexWrites Snapshot.store t.name (.string id) none
      (some (doc.keyed l.primaryKey (.string id))) l.secondary m = .ok ws) :
    Leads (AddedUnder t.name l doc id m) m (do
      t.store.batch
        (commitWrites t.name (.string id) (some (doc.keyed l.primaryKey (.string id))) ws)
      return { inserted := 1 }) := by
  have hadds := addsRow_commit hm (documentAt_eq_none.mp hfree) hws
  rw [ht]
  refine (Leads.batch (Q := fun r m' => r = .ok () ∧ AddsRow t.name l id _ m m') ⟨rfl, hadds⟩).bind
    (fun _ _ herror => (by cases herror.1)) fun _ _ hok => Leads.pure ⟨rfl, hok.2⟩

/-- **A commit under a free identifier adds a row,** or it fails and writes nothing. -/
theorem leads_addRow {m : Content} (hm : OrderedMap.Sorted m) {id : String}
    (hfree : documentAt m t.name (.string id) = .ok none) :
    Leads (fun r m' => AddedUnder t.name l doc id m r m' ∨ Refused m r m') m (do
      commit t.store t.name l (.string id) none (some (doc.keyed l.primaryKey (.string id)))
      return { inserted := 1 }) := by
  have hreads := reads_indexWrites t.name (.string id) none
    (some (doc.keyed l.primaryKey (.string id))) l.secondary
  rw [← ht] at hreads
  unfold commit
  rw [bind_assoc]
  refine Leads.bind_reads hreads (fun e => Or.inr ⟨⟨e, rfl⟩, rfl⟩) fun ws hws => ?_
  exact (leads_rowBatch ht hm hfree hws).mono fun _ _ => Or.inl

/-- It adds the row when the index entries can be read. -/
theorem leads_addRow_of_entries {m : Content} (hm : OrderedMap.Sorted m) {id : String}
    (hfree : documentAt m t.name (.string id) = .ok none)
    (hentries : ∀ f ∈ l.secondary, ∀ v : Value, v.isNull = false →
      ∃ keys, lookup Snapshot.store t.name f v m = .ok keys) :
    Leads (AddedUnder t.name l doc id m) m (do
      commit t.store t.name l (.string id) none (some (doc.keyed l.primaryKey (.string id)))
      return { inserted := 1 }) := by
  have hreads := reads_indexWrites t.name (.string id) none
    (some (doc.keyed l.primaryKey (.string id))) l.secondary
  rw [← ht] at hreads
  have hlisted : ∀ f ∈ l.secondary, Listed m t.name f (keysAt m t.name f) := by
    intro f hf v hv
    obtain ⟨keys, hkeys⟩ := hentries f hf v hv
    rw [hkeys, keysAt_lookup hkeys]
  obtain ⟨ws, hws, -⟩ :=
    indexWrites_answer (.string id) none (some (doc.keyed l.primaryKey (.string id))) hlisted
  unfold commit
  rw [bind_assoc]
  exact Leads.bind_answer hreads hws (leads_rowBatch ht hm hfree hws)

variable {s : Memory} (hs : Healthy s) (hkeyless : Keyless l.primaryKey doc)

include hs hkeyless

/-- An insert that finds a free identifier goes on to write the row. -/
theorem on_insertOne_keyed (conflict : Conflict) {id : String}
    (hkey : ((t.freshKey t.config.idAttempts).on s).1 = .ok (.string id))
    (hfree : documentAt s.content t.name (.string id) = .ok none) :
    ∃ s', Healthy s' ∧ s'.content = s.content ∧
      (t.insertOne l conflict doc).on s = (do
        commit t.store t.name l (.string id) none (some (doc.keyed l.primaryKey (.string id)))
        return { inserted := 1 } : Session WriteResult).on s' := by
  have hkept := inert_freshKey ht t.config.idAttempts s hs
  unfold Table.insertOne
  rw [Session.on_bind, keyOf_keyless hkeyless, Session.on_bind]
  rcases hon : (t.freshKey t.config.idAttempts).on s with ⟨e | key, s'⟩ <;> rw [hon] at hkey hkept
  · cases hkey
  · obtain rfl : key = .string id := Except.ok.inj hkey
    refine ⟨{ s' with calls := .get :: s'.calls }, ⟨hkept.healthy.fault⟩, hkept.content, ?_⟩
    dsimp only [Session.on_pure]
    rw [Session.on_bind, on_fetch ht hkept.healthy, hkept.content, hfree]

/-- **Without faults a document without a key is added as a row,** or nothing is written. -/
theorem insertOne_keyless (hm : OrderedMap.Sorted s.content) (conflict : Conflict) :
    let outcome := (t.insertOne l conflict doc).on s
    (∃ k < t.config.idAttempts,
        AddedUnder t.name l doc (s.supplied k) s.content outcome.1 outcome.2.content) ∨
      Refused s.content outcome.1 outcome.2.content := by
  intro outcome
  cases hkey : ((t.freshKey t.config.idAttempts).on s).1 with
  | error e =>
    have hkept := inert_freshKey ht t.config.idAttempts s hs
    have hfresh : (t.freshKey t.config.idAttempts).on s
        = (.error e, ((t.freshKey t.config.idAttempts).on s).2) := Prod.ext hkey rfl
    have houtcome : outcome = (.error e, ((t.freshKey t.config.idAttempts).on s).2) := by
      show (t.keyOf l.primaryKey doc >>= _).on s = _
      rw [Session.on_bind, keyOf_keyless hkeyless, Session.on_bind, hfresh]
    rw [houtcome]
    exact Or.inr ⟨⟨e, rfl⟩, hkept.content⟩
  | ok key =>
    obtain ⟨k, hk, rfl, hfree⟩ := freshKey_ok ht hs hkey
    obtain ⟨s', hs', hcontent, hon⟩ := on_insertOne_keyed ht hs hkeyless conflict hkey hfree
    have hadds := (@leads_addRow t ht l doc _ hm _ hfree s' hs' hcontent).2
    rw [← hon] at hadds
    exact hadds.imp_left fun h => ⟨k, hk, h⟩

omit hs in
/-- **The first free identifier is used,** if it is reached in time. -/
theorem insertOne_reaches (hm : OrderedMap.Sorted s.content) (conflict : Conflict) {k : Nat}
    (h : Reaches t l s k) :
    let outcome := (t.insertOne l conflict doc).on s
    AddedUnder t.name l doc (s.supplied k) s.content outcome.1 outcome.2.content := by
  intro outcome
  have hkey := freshKey_of_free ht h.healthy h.attempt h.held h.free
  obtain ⟨s', hs', hcontent, hon⟩ :=
    on_insertOne_keyed ht h.healthy hkeyless conflict hkey h.free
  have hadds := (@leads_addRow_of_entries t ht l doc _ hm _ h.free h.entries s' hs' hcontent).2
  rw [← hon] at hadds
  exact hadds

omit hs in
/-- **Whichever calls fail,** a document without a key is added as a row, or nothing is written. -/
theorem insertOne_generates (hm : OrderedMap.Sorted s.content) (conflict : Conflict) :
    let outcome := (t.insertOne l conflict doc).on s
    (∃ k < t.config.idAttempts,
        AddedUnder t.name l doc (s.supplied k) s.content outcome.1 outcome.2.content) ∨
      Refused s.content outcome.1 outcome.2.content := by
  intro outcome
  obtain htwin | ⟨⟨message, he⟩, hkept⟩ := follows_insertOne ht l conflict doc s
  · have hhealed := insertOne_keyless ht (healthy_healed s) hkeyless hm conflict
    rw [htwin] at hhealed
    exact hhealed
  · exact Or.inr ⟨⟨_, he⟩, hkept⟩

end Documents

/-! ## 4. Inserts -/

/-- A document is reported as inserted, and is added as a row under an identifier of the supply. -/
structure AddedAt (t : Table Session) (l : IndexList) (run : Run Memory) (k : Nat) : Prop where
  result : run.told = { inserted := 1 }
  row : AddsRow t.name l (run.before.supplied k)
    (run.doc.keyed l.primaryKey (.string (run.before.supplied k)))
    run.before.content run.after.content

/-- **What becomes of a document without a key.** -/
inductive Generated (t : Table Session) (l : IndexList) (run : Run Memory) : Prop
  /-- It is added under one of the identifiers that may be tried. -/
  | added {k : Nat} (hk : k < t.config.idAttempts) (h : AddedAt t l run k)
  /-- One error is reported, and nothing is written. -/
  | refused {message : String} (hresult : run.told = .failure message)
    (hcontent : run.after.content = run.before.content)

/-- A table is created on a session: its index list is stored. -/
structure Created (t : Table Session) (l : IndexList) (s : Memory) : Prop where
  sorted : OrderedMap.Sorted s.content
  indexes : loadIndexes Snapshot.store t.name s.content = .ok l

section Inserts

variable {t : Table Session} (ht : t.store = Memory.store) {l : IndexList} {s : Memory}

include ht

/-- The insert of a document leaves the table created. -/
theorem Created.insertOne (h : Created t l s) (conflict : Conflict) (doc : Fields) :
    Created t l (Stateful.on (t.insertOne l conflict doc) s).2 := by
  have hstep := (follows_insertOne ht l conflict doc).leads
    (leads_insertOne ht h.indexes conflict doc) (fun _ => RowStep.error _) rfl
  exact ⟨hstep.sorted h.sorted, hstep.indexes h.sorted h.indexes⟩

/-- The index list is read, or a fault is answered; the content stays. -/
theorem Created.on_indexes (h : Created t l s) :
    Created t l (Stateful.on t.indexes s).2 ∧
      (Stateful.on t.indexes s).2.content = s.content ∧
      ((Stateful.on t.indexes s).1 = .ok l ∨
        ∃ message, (Stateful.on t.indexes s).1 = .error (.storage message)) := by
  have hleads : Leads (fun r m' => (r = .ok l ∨ ∃ message, r = .error (.storage message)) ∧
      m' = s.content) s.content t.indexes := by
    intro s' hs' hm
    obtain ⟨hanswer, hkept⟩ := reads_indexes ht s' hs'
    exact ⟨hkept.healthy, Or.inl (hanswer.trans (hm ▸ h.indexes)), hkept.content.trans hm⟩
  obtain ⟨hanswer, hcontent⟩ := (follows_indexes ht).leads hleads
    (fun message => ⟨Or.inr ⟨message, rfl⟩, rfl⟩) rfl
  exact ⟨⟨hcontent ▸ h.sorted, hcontent ▸ h.indexes⟩, hcontent, hanswer⟩

/-- A document without a key, of whichever insert. -/
theorem Created.generated (conflict : Conflict) {docs : List Fields} {run : Run Memory}
    (hrun : run ∈ runs (t.insertOne l conflict) docs s) (h : Created t l run.before)
    (hkeyless : Keyless l.primaryKey run.doc) :
    Generated t l run ∧ ∀ k, Reaches t l run.before k → AddedAt t l run k := by
  have hon : Session.on (t.insertOne l conflict run.doc) run.before = (run.outcome, run.after) :=
    on_of_mem_runs hrun
  have hgenerates := insertOne_generates ht hkeyless h.sorted conflict
  rw [hon] at hgenerates
  refine ⟨?_, fun k hk => ?_⟩
  · obtain ⟨k, hk, hresult, hrow⟩ | ⟨⟨e, he⟩, hcontent⟩ := hgenerates
    · exact .added hk ⟨Run.told_of_ok hresult, hrow⟩
    · exact .refused (Run.told_of_error he) hcontent
  · have hreaches := insertOne_reaches ht hkeyless h.sorted conflict hk
    rw [hon] at hreaches
    exact ⟨Run.told_of_ok hreaches.1, hreaches.2⟩

end Inserts

/-- **Generated keys never overwrite.** An insert reports that the index list cannot be read, and
    changes nothing; or it writes its documents one after another, and each of those without a key
    is added as one row more, under an identifier that no row held, or is refused without a change.
    It is added under the first free identifier if that is reached in time. -/
theorem insert_generates {t : Table Session} (ht : t.store = Memory.store) {l : IndexList}
    {s : Memory} (h : Created t l s) {docs : Value} {list : List Fields}
    (hdocs : docs.documents = .ok list) (choice : Option Conflict) :
    let header := Stateful.on t.indexes s
    let write := t.insertOne l (t.config.conflictFor choice)
    let outcome := Stateful.on (t.insert docs choice) s
    header.2.content = s.content ∧
      ((∃ message, header.1 = .error (.storage message) ∧
          outcome = (.ok (.failure (Error.storage message).message), header.2)) ∨
        header.1 = .ok l ∧
          outcome = (.ok (((runs write list header.2).map Run.told).foldl WriteResult.merge {}),
            after write list header.2) ∧
          ∀ run ∈ runs write list header.2, Keyless l.primaryKey run.doc →
            Generated t l run ∧ ∀ k, Reaches t l run.before k → AddedAt t l run k) := by
  intro header write outcome
  obtain ⟨hcreated, hcontent, hl | ⟨message, he⟩⟩ := h.on_indexes ht
  · have hanswers : ∀ doc, Batch.Answers (write doc) := fun doc s =>
      ⟨fun _ _ => trivial, (endsIn_insertOne (reliable_table ht).answers l _ doc s).2⟩
    have hkept : (∀ run ∈ runs write list header.2, Created t l run.before) ∧
        Created t l (after write list header.2) :=
      kept (fun doc s hs => hs.insertOne ht _ doc) hcreated
    refine ⟨hcontent, Or.inr ⟨hl, ?_, fun run hrun hkeyless => ?_⟩⟩
    · exact (WriteResult.on_insertAfter_of_ok _ hdocs hl).trans (on_reportEach hanswers list {} _)
    · exact Created.generated ht _ hrun (hkept.1 run hrun) hkeyless
  · have hfailed := WriteResult.on_insertAfter_of_error
      (fun l => t.insertOne l (t.config.conflictFor choice)) hdocs he rfl
    exact ⟨hcontent, Or.inl ⟨message, he, hfailed⟩⟩

/-- A table of things with one row, and a supply that first answers the identifier of that row. -/
def repeating : Memory where
  content := Content.applyAll [] [(⟨"id", ["colour"]⟩ : IndexList).record "things",
    documentWrite "things" (.string "a") (some [("id", .string "a")])]
  ids n := if n < 2 then "a" else "b"

/-- The identifier of the row is passed over, and the row stays. -/
theorem repeating_passed_over :
    let t := tableOf {} "things"
    let outcome := Stateful.on (t.insert (.object [("colour", .string "red")]) none) repeating
    outcome.1 = .ok { inserted := 1 } ∧
      ∃ id, id ≠ "a" ∧
        documentAt outcome.2.content "things" (.string id)
          = .ok (some [("id", .string id), ("colour", .string "red")]) ∧
        outcome.2.content.read ((Space.primary "things").key (.string "a"))
          = repeating.content.read ((Space.primary "things").key (.string "a")) := by
  intro t outcome
  have hlist : (loadIndexes Snapshot.store "things" repeating.content).toOption
      = some ⟨"id", ["colour"]⟩ := by decide +kernel
  have hresult : outcome.1.toOption = some { inserted := 1 } := by decide +kernel
  have hheld : (repeating.content.read ((Space.primary "things").key (.string "a"))).isSome := by
    decide +kernel
  have hcreated : Created t ⟨"id", ["colour"]⟩ repeating :=
    ⟨Content.sorted_applyAll List.Pairwise.nil _, ok_of_toOption hlist⟩
  have hok : outcome.1 = .ok { inserted := 1 } := ok_of_toOption hresult
  have hdocs : (Value.object [("colour", .string "red")]).documents
      = .ok [[("colour", .string "red")]] := rfl
  obtain ⟨hcontent, ⟨message, -, hfailed⟩ | ⟨-, hruns, hgenerated⟩⟩ :=
    insert_generates rfl hcreated hdocs none
  · cases hok.symm.trans (congrArg Prod.fst hfailed)
  · obtain ⟨hanswer, hend⟩ := Prod.mk.inj (show (outcome.1, outcome.2) = _ from hruns)
    obtain ⟨run, hone, hdoc, hbefore, hafter⟩ : ∃ run, runs (t.insertOne ⟨"id", ["colour"]⟩
        (t.config.conflictFor none)) [[("colour", .string "red")]]
          (Stateful.on t.indexes repeating).2 = [run] ∧ run.doc = [("colour", .string "red")] ∧
        run.before.content = repeating.content ∧ outcome.2 = run.after :=
      ⟨_, rfl, rfl, hcontent, hend⟩
    rw [hone] at hanswer hgenerated
    have htold : run.told = { inserted := 1 } :=
      (WriteResult.empty_merge run.told).symm.trans (Except.ok.inj (hanswer.symm.trans hok))
    have hkeyless : Keyless "id" run.doc := by
      rw [hdoc]
      exact fun v hv => by cases hv
    obtain ⟨-, -, hrow⟩ | ⟨hresult, -⟩ := (hgenerated run (List.mem_singleton.mpr rfl) hkeyless).1
    · have hstorable : Fields.Storable [("colour", .string "red")] :=
        .object (by simp) fun f hf => List.mem_singleton.mp hf ▸ Value.storable_string "red"
      rw [hdoc, hbefore, ← hafter] at hrow
      change AddsRow "things" _ _ _ _ _ at hrow
      -- The row of before holds its key, and the added one stands under a key that was free.
      have hother : (Space.primary "things").key (.string "a")
          ≠ (Space.primary "things").key (.string (run.before.supplied _)) := fun heq => by
        rw [heq, hrow.free] at hheld
        cases hheld
      exact ⟨hok, _, fun heq => hother (heq ▸ rfl),
        hrow.read (hstorable.keyed "id" (Value.storable_string _)), hrow.other hother (Or.inl rfl)⟩
    · rw [htold] at hresult
      cases hresult

end KeyValue

end QueryAlgebra
