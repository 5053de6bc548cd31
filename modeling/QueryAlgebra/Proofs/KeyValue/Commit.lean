import QueryAlgebra.Proofs.KeyValue.Steps

/-!
# One commit

A commit on any state of a store: the rows are what can be read under the places of documents, the
names of the table and of the fields are any texts, and a field may be listed more than once.

* `Maintained`: under every value that is not null an index lists the keys of the rows that have it,
  each once, and no others.
* `Committed`: what a commit leaves. The row is written, the indexes are maintained again, no empty
  list is stored, and nothing else is changed.
* `commit_maintains`: a commit leaves that, as long as what it writes is read back.
-/

namespace QueryAlgebra

namespace KeyValue

/-! ## 1. Rows and lists of keys -/

/-- The documents that can be read under the places of a table. -/
def storedRows (m : Content) (t : String) : Rows := fun p =>
  (m.read ((Space.primary t).named p)).bind fun text => (readDocument text).toOption

/-- Under every value that is not null the indexes on the fields list the keys of its rows. -/
def Maintained (m : Content) (t : String) (fields : List String) : Prop :=
  ∀ f ∈ fields, ∀ v : Value, v.isNull = false → ∃ keys,
    lookup Snapshot.store t f v m = .ok keys ∧ Owners (storedRows m t) f v.fingerprint keys

/-- The keys that the indexes on the fields list are read back from their own texts. -/
def KeysReadBack (m : Content) (t : String) (fields : List String) : Prop :=
  ∀ f ∈ fields, ∀ v : Value, v.isNull = false → ∀ keys, lookup Snapshot.store t f v m = .ok keys →
    ∀ k ∈ keys, k.Storable

/-- The primary keys of rows, and one more. -/
def KeyAmong (rows : Rows) (key k : Value) : Prop :=
  k.fingerprint = key.fingerprint ∨ (rows k.fingerprint).isSome

/-- Loosely equal keys among those of the rows and one more have equal fingerprints. -/
def KeysApart (rows : Rows) (key : Value) : Prop :=
  ∀ a b, KeyAmong rows key a → KeyAmong rows key b → a.looseEq b = true →
    a.fingerprint = b.fingerprint

/-- **What a commit leaves** of a content. -/
structure Committed (m : Content) (t : String) (fields : List String) (key : Value)
    (old new : Option Fields) (m' : Content) : Prop where
  /-- The keys are in order. -/
  sorted : OrderedMap.Sorted m'
  /-- The rows are those of before, with the new document or without one. -/
  rows : storedRows m' t = (storedRows m t).write key.fingerprint new
  /-- The indexes are maintained. -/
  maintained : Maintained m' t fields
  /-- The keys that they list can be read back. -/
  readBack : KeysReadBack m' t fields
  /-- An empty list that is stored was stored before, and not under a value of the row. -/
  unemptied : ∀ f ∈ fields, ∀ v : Value, v.isNull = false → ∀ text,
    m'.read ((Space.index t f).key v) = some text → readValues text = .ok [] →
      m.read ((Space.index t f).key v) = some text ∧
        placeIn f old ≠ some v.fingerprint ∧ placeIn f new ≠ some v.fingerprint
  /-- Apart from the row, only entries of values of the row are written. -/
  frame : ∀ k, k ≠ (Space.primary t).key key →
    (∀ f ∈ fields, ∀ v, indexed old f = some v ∨ indexed new f = some v →
      k ≠ (Space.index t f).key v) → m'.read k = m.read k

/-- The fingerprints of keys that are told apart. A text is loosely equal to no other value, so the
    texts may be counted among them. -/
theorem KeysApart.apart {rows : Rows} {key : Value} (h : KeysApart rows key) :
    Apart (fun p => (p = key.fingerprint ∨ (rows p).isSome) ∨
      ∃ s, (Value.string s).fingerprint = p) := by
  have hstring : ∀ (s : String) (b : Value), (Value.string s).looseEq b = true → b = .string s := by
    intro s b heq
    cases b with
    | string s' =>
      have hs : s = s' := by simpa [Value.looseEq] using heq
      rw [hs]
    | null | bool | number | array | object => simp [Value.looseEq] at heq
  have hstring' : ∀ (s : String) (a : Value), a.looseEq (.string s) = true → a = .string s := by
    intro s a heq
    cases a with
    | string s' => simpa [Value.looseEq] using heq
    | null | bool | number | array | object => simp [Value.looseEq] at heq
  refine ⟨fun s => Or.inr ⟨s, rfl⟩, fun a b ha hb heq => ?_⟩
  rcases ha with ha | ⟨s, hs⟩
  · rcases hb with hb | ⟨s, hs⟩
    · exact h a b ha hb heq
    · rw [← Value.looseEq_congr_right a hs] at heq
      rw [hstring' s a heq, hs]
  · rw [← Value.looseEq_congr_left b hs] at heq
    rw [hstring s b heq, hs]

/-! ## 2. What is read -/

section Stored

variable {m m' : Content} {t : String} {key : Value}

theorem storedRows_key {old : Option Fields} (h : documentAt m t key = .ok old) :
    storedRows m t key.fingerprint = old := by
  unfold documentAt at h
  unfold storedRows
  rw [show (Space.primary t).named key.fingerprint = (Space.primary t).key key from rfl]
  cases hread : m.read ((Space.primary t).key key) with
  | none =>
    rw [hread] at h
    cases h
    rfl
  | some text =>
    rw [hread] at h
    obtain ⟨doc, hdoc, rfl⟩ := map_eq_ok.mp h
    rw [Option.bind_some, hdoc]
    rfl

/-- The rows with one more document, or without one. -/
theorem storedRows_write {new : Option Fields} (hnew : ∀ doc, new = some doc → doc.Storable)
    (hkey : m'.read ((Space.primary t).key key) = new.map (fun doc => (Value.object doc).json))
    (hother : ∀ p, p ≠ key.fingerprint →
      m'.read ((Space.primary t).named p) = m.read ((Space.primary t).named p)) :
    storedRows m' t = (storedRows m t).write key.fingerprint new := by
  funext p
  unfold Rows.write
  split
  · next hp =>
    subst hp
    exact storedRows_key (documentAt_of_read hnew hkey)
  · next hp =>
    unfold storedRows
    rw [hother p hp]

/-- The keys that are listed at a place of an index, none where none can be read. -/
def keysAt (m : Content) (t f p : String) : List Value :=
  ((m.read ((Space.index t f).named p)).bind fun text => (readValues text).toOption).getD []

theorem keysAt_lookup {f : String} {v : Value} {keys : List Value}
    (h : lookup Snapshot.store t f v m = .ok keys) : keysAt m t f v.fingerprint = keys := by
  unfold lookup at h
  unfold keysAt
  rw [Snapshot.bind_apply, Snapshot.get_apply, ok_bind] at h
  rw [show (Space.index t f).named v.fingerprint = (Space.index t f).key v from rfl]
  cases hread : m.read ((Space.index t f).key v) with
  | none =>
    rw [hread] at h
    cases h
    rfl
  | some text =>
    rw [hread] at h
    have hkeys : readValues text = .ok keys := (Snapshot.ofOutcome_apply m _).symm.trans h
    rw [Option.bind_some, hkeys]
    rfl

theorem lookup_congr {f : String} {v : Value}
    (h : m'.read ((Space.index t f).key v) = m.read ((Space.index t f).key v)) :
    lookup Snapshot.store t f v m' = lookup Snapshot.store t f v m := by
  unfold lookup
  rw [Snapshot.bind_apply, Snapshot.bind_apply, Snapshot.get_apply, Snapshot.get_apply, h, ok_bind,
    ok_bind]
  cases m.read ((Space.index t f).key v) with
  | none => rfl
  | some text => exact (Snapshot.ofOutcome_apply m' _).trans (Snapshot.ofOutcome_apply m _).symm

end Stored

/-! ## 3. The commit -/

section Commit

variable {m : Content} {t : String} {key : Value} {old new : Option Fields} {fields : List String}
  {ws : List Write}

/-- The writes of a commit, the row last. -/
abbrev commitWrites (t : String) (key : Value) (new : Option Fields) (ws : List Write) :
    List Write := ws ++ [documentWrite t key new]

section Writes

variable (hs : OrderedMap.Sorted m)
  (hws : indexWrites Snapshot.store t key old new fields m = .ok ws)

include hs hws

theorem read_commit_row :
    (m.applyAll (commitWrites t key new ws)).read ((Space.primary t).key key)
      = new.map (fun doc => (Value.object doc).json) := by
  refine Content.read_applyAll_of_mem hs
    ⟨_, List.mem_append_right _ (List.mem_singleton.mpr rfl), key_documentWrite key new⟩ ?_
  intro w hw hkey
  rcases List.mem_append.mp hw with hw | hw
  · obtain ⟨f, -, v, hv, -⟩ := key_indexWrites hws w hw
    exact absurd (hkey.symm.trans hv) (Space.row_ne_entry t f _ _)
  · rw [List.mem_singleton.mp hw, value_documentWrite]

/-- **Apart from the row, a commit writes entries of the values of the row.** -/
theorem read_commit_other {k : String} (hrow : k ≠ (Space.primary t).key key)
    (hentry : ∀ f ∈ fields, ∀ v, indexed old f = some v ∨ indexed new f = some v →
      k ≠ (Space.index t f).key v) :
    (m.applyAll (commitWrites t key new ws)).read k = m.read k := by
  refine Content.read_applyAll_of_not_mem hs fun w hw => ?_
  rcases List.mem_append.mp hw with hw | hw
  · obtain ⟨f, hf, v, hkey, hv⟩ := key_indexWrites hws w hw
    rw [hkey]
    exact (hentry f hf v hv).symm
  · rw [List.mem_singleton.mp hw, key_documentWrite]
    exact hrow.symm

theorem read_commit_row_other {p : String} (hp : p ≠ key.fingerprint) :
    (m.applyAll (commitWrites t key new ws)).read ((Space.primary t).named p)
      = m.read ((Space.primary t).named p) := by
  refine read_commit_other hs hws (fun heq => hp (Space.named_injective heq)) ?_
  exact fun f _ v _ => Space.row_ne_entry t f p _

theorem storedRows_commit (hnew : ∀ doc, new = some doc → doc.Storable) :
    storedRows (m.applyAll (commitWrites t key new ws)) t
      = (storedRows m t).write key.fingerprint new :=
  storedRows_write hnew (read_commit_row hs hws) fun _ hp => read_commit_row_other hs hws hp

end Writes

/-- **What a commit does to an entry:** it lists the keys of its rows again, and if something was
    written there, then the list is not empty. -/
theorem entry_commit (key : Value) (new : Option Fields) (hs : OrderedMap.Sorted m) {f : String}
    {v : Value} {keys keys' : List Value} (hkeys : lookup Snapshot.store t f v m = .ok keys)
    (hstorable : ∀ k ∈ keys', k.Storable)
    (hsets : Content.Sets ws ((Space.index t f).key v) (entryText keys') (keys' = keys)) :
    let m' := m.applyAll (commitWrites t key new ws)
    lookup Snapshot.store t f v m' = .ok keys' ∧
      (keys' = [] → ∀ text, m'.read ((Space.index t f).key v) = some text →
        m.read ((Space.index t f).key v) = some text ∧ keys = []) := by
  intro m'
  have hrow : ∀ w ∈ [documentWrite t key new], w.key ≠ (Space.index t f).key v := by
    intro w hw
    rw [List.mem_singleton.mp hw, key_documentWrite]
    exact Space.row_ne_entry t f _ _
  have hsets' := hsets.append_other hrow
  by_cases hwritten : ∃ w ∈ commitWrites t key new ws, w.key = (Space.index t f).key v
  · have hread : m'.read ((Space.index t f).key v) = entryText keys' :=
      Content.read_applyAll_of_mem hs hwritten hsets'.written
    refine ⟨lookup_of_entry hread hstorable, fun hnil text htext => ?_⟩
    rw [hread, hnil] at htext
    cases htext
  · have hother : ∀ w ∈ commitWrites t key new ws, w.key ≠ (Space.index t f).key v :=
      fun w hw heq => hwritten ⟨w, hw, heq⟩
    have hread := Content.read_applyAll_of_not_mem hs hother
    have hsame : keys' = keys := hsets'.untouched hother
    refine ⟨(lookup_congr hread).trans (hsame ▸ hkeys), fun hnil text htext => ?_⟩
    exact ⟨hread.symm.trans htext, hsame ▸ hnil⟩

/-- **The writes of a commit leave what a commit is to leave.** -/
theorem committed_writes (hs : OrderedMap.Sorted m) (hold : documentAt m t key = .ok old)
    (hm : Maintained m t fields) (hback : KeysReadBack m t fields)
    (hapart : KeysApart (storedRows m t) key)
    (hnew : ∀ doc, new = some doc → doc.Storable ∧ key.Storable) :
    ∃ ws, indexWrites Snapshot.store t key old new fields m = .ok ws ∧
      Committed m t fields key old new (m.applyAll (commitWrites t key new ws)) := by
  have hlisted : ∀ f ∈ fields, Listed m t f (keysAt m t f) := by
    intro f hf v hv
    obtain ⟨keys, hkeys, -⟩ := hm f hf v hv
    rw [hkeys, keysAt_lookup hkeys]
  obtain ⟨ws, hws, hsets⟩ := indexWrites_answer key old new hlisted
  have hrows := storedRows_commit hs hws fun doc hdoc => (hnew doc hdoc).1
  have hself := storedRows_key hold
  have hlists : ∀ f ∈ fields, ∀ v : Value, v.isNull = false →
      Lists (storedRows m t) f v.fingerprint (keysAt m t f v.fingerprint) := by
    intro f hf v hv
    obtain ⟨keys, hkeys, howners⟩ := hm f hf v hv
    rw [keysAt_lookup hkeys]
    exact howners.lists (hback f hf v hv keys hkeys)
  have hafter : ∀ f ∈ fields, ∀ v : Value, v.isNull = false →
      Lists ((storedRows m t).write key.fingerprint new) f v.fingerprint
        (keysAfter key (placeIn f old) (placeIn f new) v.fingerprint
          (keysAt m t f v.fingerprint)) := by
    intro f hf v hv
    have hknown : ∀ p doc, storedRows m t p = some doc →
        (p = key.fingerprint ∨ (storedRows m t p).isSome) ∨
          ∃ s, (Value.string s).fingerprint = p :=
      fun p doc hdoc => Or.inl (Or.inr (by rw [hdoc]; rfl))
    have hsome : new.isSome → key.Storable := by
      intro h
      obtain ⟨doc, hdoc⟩ := Option.isSome_iff_exists.mp h
      exact (hnew doc hdoc).2
    rw [← hself]
    exact (hlists f hf v hv).after hapart.apart hknown (Or.inl (Or.inl rfl)) hsome
  have hentry := fun f hf v hv => entry_commit key new hs (hlisted f hf v hv)
    (hafter f hf v hv).storable (hsets f hf v.fingerprint (aloneAt_value t fields f v))
  refine ⟨ws, hws, Content.sorted_applyAll hs _, hrows, fun f hf v hv => ?_,
    fun f hf v hv keys hkeys => ?_,
    fun f hf v hv text htext hempty => ?_, fun k hrow hother => read_commit_other hs hws hrow hother⟩
  · exact ⟨_, (hentry f hf v hv).1, hrows ▸ (hafter f hf v hv).toOwners⟩
  · rw [(hentry f hf v hv).1] at hkeys
    cases hkeys
    exact (hafter f hf v hv).storable
  · obtain ⟨hlookup, hnil⟩ := hentry f hf v hv
    have hnone : lookup Snapshot.store t f v (m.applyAll (commitWrites t key new ws)) = .ok [] := by
      unfold lookup
      rw [Snapshot.bind_apply, Snapshot.get_apply, htext, ok_bind]
      exact (Snapshot.ofOutcome_apply _ _).trans hempty
    rw [hnone] at hlookup
    have hkeys' := (Except.ok.inj hlookup).symm
    obtain ⟨hread, hkeys⟩ := hnil hkeys' text htext
    have hbefore := (hlists f hf v hv).toOwners
    have hthen := (hafter f hf v hv).toOwners
    rw [hkeys] at hbefore
    rw [hkeys'] at hthen
    have hrow : (storedRows m t).write key.fingerprint new key.fingerprint = new := if_pos rfl
    exact ⟨hread, hself ▸ hbefore.placeIn_ne, hrow ▸ hthen.placeIn_ne⟩

theorem leads_committed (hs : OrderedMap.Sorted m) {l : IndexList}
    (hold : documentAt m t key = .ok old) (hm : Maintained m t l.secondary)
    (hback : KeysReadBack m t l.secondary) (hapart : KeysApart (storedRows m t) key)
    (hnew : ∀ doc, new = some doc → doc.Storable ∧ key.Storable) :
    Leads (fun r m' => r = .ok () ∧ Committed m t l.secondary key old new m') m
      (commit Memory.store t l key old new) := by
  obtain ⟨ws, hws, hcommitted⟩ := committed_writes hs hold hm hback hapart hnew
  exact Leads.bind_answer (reads_indexWrites t key old new l.secondary) hws
    (Leads.batch ⟨rfl, hcommitted⟩)

/-- **A commit maintains the indexes.** In a session without faults, on any table and any fields: when
    the document of a row is known, the indexes list the keys of the rows, loosely equal keys have
    equal fingerprints, and what is to be written is read back, then the commit succeeds, the row and
    the indexes are as they should be, and nothing else is changed. -/
theorem commit_maintains {s : Memory} (hhealthy : Healthy s) (hs : OrderedMap.Sorted s.content)
    {l : IndexList} (hold : documentAt s.content t key = .ok old)
    (hm : Maintained s.content t l.secondary) (hback : KeysReadBack s.content t l.secondary)
    (hapart : KeysApart (storedRows s.content t) key)
    (hnew : ∀ doc, new = some doc → doc.Storable ∧ key.Storable) :
    ((commit Memory.store t l key old new).on s).1 = .ok () ∧
      Committed s.content t l.secondary key old new
        ((commit Memory.store t l key old new).on s).2.content :=
  (leads_committed hs hold hm hback hapart hnew s hhealthy rfl).2

end Commit

/-! ### Things with a colour -/

theorem maintained_nil (t : String) (fields : List String) : Maintained [] t fields :=
  fun _ _ _ _ => ⟨[], rfl, (lists_nil _ _).toOwners⟩

theorem keysReadBack_nil (t : String) (fields : List String) : KeysReadBack [] t fields := by
  intro f _ v _ keys hkeys
  cases hkeys
  exact fun k hk => absurd hk List.not_mem_nil

/-- A thing with a number and a colour. -/
def thing (i : Nat) (colour : String) : Fields :=
  [("id", Value.count i), ("colour", .string colour)]

/-- Things have an index on their colour, which is listed twice. -/
def thingIndexes : IndexList := ⟨"id", ["colour", "colour"]⟩

/-- What is stored after a thing has been committed. -/
def commitThing (m : Content) (i : Nat) (old new : Option Fields) : Content :=
  ((commit Memory.store "things" thingIndexes (Value.count i) old new).on { content := m }).2.content

theorem storable_count (i : Nat) : (Value.count i).Storable := .number _ (Number.int_readsBack _ _)

theorem storable_thing (i : Nat) (colour : String) : (thing i colour).Storable := by
  refine .object (by simp [thing]) (fun f hf => ?_)
  rcases List.mem_pair.mp hf with rfl | rfl
  · exact storable_count i
  · exact Value.storable_string colour

/-- The rows of a table have small numbers as their keys. -/
def Numbered (rows : Rows) : Prop :=
  ∀ p, (rows p).isSome → ∃ i, i ≤ 0x20000000000000 ∧ (Value.count i).fingerprint = p

theorem ordinary_count {i : Nat} (h : i ≤ 0x20000000000000) : OrdinaryKey (Value.count i) :=
  .int _ _ (by omega)

theorem Numbered.keysApart {rows : Rows} (h : Numbered rows) {i : Nat} (hi : i ≤ 0x20000000000000) :
    KeysApart rows (Value.count i) := by
  have hamong : ∀ k, KeyAmong rows (Value.count i) k →
      ∃ k', OrdinaryKey k' ∧ k'.fingerprint = k.fingerprint := by
    intro k hk
    rcases hk with hk | hk
    · exact ⟨_, ordinary_count hi, hk.symm⟩
    · obtain ⟨j, hj, hfingerprint⟩ := h _ hk
      exact ⟨_, ordinary_count hj, hfingerprint⟩
  exact fun a b ha hb heq => apart_ordinary.eq_of_looseEq a b (hamong a ha) (hamong b hb) heq

theorem Numbered.write {rows : Rows} (h : Numbered rows) {i : Nat} (hi : i ≤ 0x20000000000000)
    (doc : Option Fields) : Numbered (rows.write (Value.count i).fingerprint doc) := by
  intro p hp
  unfold Rows.write at hp
  split at hp
  · next heq => exact ⟨i, hi, heq.symm⟩
  · exact h p hp

theorem committed_thing {m : Content} (hs : OrderedMap.Sorted m) {i : Nat} {colour : String}
    {old : Option Fields} (hi : i ≤ 0x20000000000000)
    (hold : documentAt m "things" (Value.count i) = .ok old)
    (hm : Maintained m "things" thingIndexes.secondary)
    (hback : KeysReadBack m "things" thingIndexes.secondary)
    (hrows : Numbered (storedRows m "things")) :
    Committed m "things" thingIndexes.secondary (Value.count i) old (some (thing i colour))
      (commitThing m i old (some (thing i colour))) :=
  (leads_committed hs hold hm hback (hrows.keysApart hi)
    (fun _ hdoc => Option.some.inj hdoc ▸ ⟨storable_thing i colour, storable_count i⟩)
    { content := m } ⟨rfl⟩ rfl).2.2

/-- Two red things are stored; then the first is painted blue. -/
theorem painted_thing_maintained :
    let one := commitThing [] 1 none (some (thing 1 "red"))
    let two := commitThing one 2 none (some (thing 2 "red"))
    let painted := (commit Memory.store "things" thingIndexes (Value.count 1) (some (thing 1 "red"))
      (some (thing 1 "blue"))).on { content := two }
    painted.1 = .ok () ∧
      Committed two "things" thingIndexes.secondary (Value.count 1) (some (thing 1 "red"))
        (some (thing 1 "blue")) painted.2.content ∧
      painted.2.content.read ((Space.index "things" "colour").key (.string "red")) = some "[2]" ∧
      painted.2.content.read ((Space.index "things" "colour").key (.string "blue")) = some "[1]" := by
  intro one two painted
  have hnone : Numbered (storedRows [] "things") := fun p hp => absurd hp Bool.false_ne_true
  have hi : 1 ≤ 0x20000000000000 := by decide
  have hi' : 2 ≤ 0x20000000000000 := by decide
  have hone : Committed [] "things" thingIndexes.secondary (Value.count 1) none
      (some (thing 1 "red")) one :=
    committed_thing List.Pairwise.nil hi rfl (maintained_nil _ _) (keysReadBack_nil _ _) hnone
  have hrows : Numbered (storedRows one "things") := by
    rw [hone.rows]
    exact hnone.write hi _
  have hfree : documentAt one "things" (Value.count 2) = .ok none :=
    documentAt_of_read (fun _ h => (by cases h)) (by decide +kernel)
  have htwo : Committed one "things" thingIndexes.secondary (Value.count 2) none
      (some (thing 2 "red")) two :=
    committed_thing hone.sorted hi' hfree hone.maintained hone.readBack hrows
  have hrows' : Numbered (storedRows two "things") := by
    rw [htwo.rows]
    exact hrows.write hi' _
  have hread : two.read ((Space.primary "things").key (Value.count 1))
      = some (Value.object (thing 1 "red")).json := by decide +kernel
  have hold : documentAt two "things" (Value.count 1) = .ok (some (thing 1 "red")) :=
    documentAt_of_read (fun _ hdoc => Option.some.inj hdoc ▸ storable_thing 1 "red") hread
  have hred : painted.2.content.read ((Space.index "things" "colour").key (.string "red"))
      = some "[2]" := by decide +kernel
  have hblue : painted.2.content.read ((Space.index "things" "colour").key (.string "blue"))
      = some "[1]" := by decide +kernel
  clear_value two
  obtain ⟨hok, hpainted⟩ := commit_maintains (s := { content := two }) ⟨rfl⟩ htwo.sorted hold
    htwo.maintained htwo.readBack (hrows'.keysApart hi)
    (fun _ hdoc => Option.some.inj hdoc ▸ ⟨storable_thing 1 "blue", storable_count 1⟩)
  exact ⟨hok, hpainted, hred, hblue⟩

/-- A key that is a double need not be read back, so it is lost from the list that it was put on: its
    text is read as a double beside it. -/
theorem double_lost_from_list :
    let key : Value := .ofDouble? (Double.ofText? "3.3e30")
    let new : Fields := [("id", key), ("colour", .string "red")]
    let done := (commit Memory.store "things" ⟨"id", ["colour"]⟩ key none (some new)).on {}
    documentAt [] "things" key = .ok none ∧ Maintained [] "things" ["colour"] ∧
      KeysReadBack [] "things" ["colour"] ∧ KeysApart (storedRows [] "things") key ∧
      done.1.toOption = some () ∧ ¬Maintained done.2.content "things" ["colour"] := by
  intro key new done
  refine ⟨rfl, maintained_nil _ _, keysReadBack_nil _ _, ?_, by decide +kernel, fun hm => ?_⟩
  · intro a b ha hb _
    have hnone : ∀ p, (storedRows [] "things" p).isSome → False := fun _ hp => by cases hp
    rw [ha.resolve_right (hnone _), hb.resolve_right (hnone _)]
  · obtain ⟨keys, hkeys, howners⟩ := hm "colour" (List.mem_singleton.mpr rfl) (.string "red") rfl
    have hlisted : (lookup Snapshot.store "things" "colour" (.string "red")
        done.2.content).toOption.map (List.map Value.fingerprint)
          = some ["3.2999999999999997e+30"] := by decide +kernel
    have hrow : placeIn "colour" (storedRows done.2.content "things" "3.3e+30")
        = some (Value.string "red").fingerprint := by decide +kernel
    have hmem := (howners.owners "3.3e+30").mpr hrow
    rw [hkeys] at hlisted
    rw [Option.some.inj hlisted] at hmem
    exact absurd (List.mem_singleton.mp hmem) (by decide)

end KeyValue

end QueryAlgebra
