import QueryAlgebra.Proofs.KeyValue.KeyedReads
import QueryAlgebra.Proofs.KeyValue.Selections

/-!
# Deleting what a queue selects

Deleting a selection is a loop: every document that the queue leaves is deleted in a batch of its own,
which reads the row and the lists of keys again, as the batches before have left them. One deletion
takes a document from the table and from every index, and nothing else (`Standing.leads_commit`), so
the loop takes from the scan what running the queue would have answered.

* `Standing`: the invariant of the loop, the documents of a table with their indexes in step.
* `Standing.leads_deleteItems`: the loop, by induction on the documents to delete.
* `selection_delete_removes`: the whole deletion.
-/

namespace QueryAlgebra

namespace KeyValue

/-! ## 1. One deletion -/

/-- The documents without the one of a key. -/
def withoutKeyed (primaryKey : String) (key : Value) (docs : List Fields) : List Fields :=
  docs.filter fun doc => (primaryOf primaryKey doc).fingerprint ≠ key.fingerprint

theorem mem_withoutKeyed {primaryKey : String} {key : Value} {docs : List Fields} {doc : Fields} :
    doc ∈ withoutKeyed primaryKey key docs
      ↔ doc ∈ docs ∧ (primaryOf primaryKey doc).fingerprint ≠ key.fingerprint := by
  simp [withoutKeyed]

/-- **A scan without a row** answers the documents without the one that stood there. -/
theorem Scanned.without {m m' : Content} {t primaryKey : String} {docs : List Fields}
    (h : Scanned m t primaryKey docs) (hs : OrderedMap.Sorted m) (hs' : OrderedMap.Sorted m')
    {key : Value} (hgone : m'.read ((Space.primary t).key key) = none)
    (hother : ∀ p, p ≠ key.fingerprint →
      m'.read ((Space.primary t).named p) = m.read ((Space.primary t).named p)) :
    Scanned m' t primaryKey (withoutKeyed primaryKey key docs) := by
  have hrows : KeyValue.storedRows m' t = (KeyValue.storedRows m t).write key.fingerprint none :=
    storedRows_write (fun _ hdoc => by cases hdoc) hgone hother
  refine ⟨?_, h.nodup.sublist (List.filter_sublist.map _), fun p doc => ?_,
    fun doc hdoc => h.keyed doc (mem_withoutKeyed.mp hdoc).1⟩
  · have hscan : m'.startingWith (Space.primary t).stem
        = (m.startingWith (Space.primary t).stem).filter
          fun e => decide (e.1 ≠ (Space.primary t).key key) := by
      refine Content.startingWith_filter hs hs' (fun k => decide (k ≠ (Space.primary t).key key))
        fun k hk => ?_
      obtain ⟨p, rfl⟩ := Space.stem_prefix.mp hk
      by_cases hp : p = key.fingerprint
      · rw [hp, if_neg (by simp [Space.key])]
        exact hgone
      · have hne : (Space.primary t).named p ≠ (Space.primary t).key key :=
          fun heq => hp (Space.named_injective heq)
        rw [hother p hp, if_pos (decide_eq_true hne)]
    rw [hscan]
    refine mapM_filter_eq_ok h.read fun e he doc hdoc => ?_
    -- A record holds the document of its place.
    obtain ⟨hread, p, hplace⟩ := (Space.mem_entries hs).mp he
    have hrow : KeyValue.storedRows m t p = some doc := by
      unfold KeyValue.storedRows
      rw [← hplace, hread, Option.bind_some, hdoc]
      rfl
    rw [((h.rows p doc).mp hrow).2, hplace]
    exact decide_eq_decide.mpr (not_congr ⟨Space.named_injective, congrArg _⟩)
  · rw [hrows, mem_withoutKeyed]
    unfold Rows.write
    split
    · next hp =>
      refine iff_of_false (fun hnone => by cases hnone) ?_
      rintro ⟨hdoc, heq⟩
      exact hdoc.2 (heq.trans hp)
    · next hp =>
      rw [h.rows]
      refine and_congr_left fun heq => (and_iff_left ?_).symm
      rwa [heq]

/-- Loosely equal keys of the documents have equal fingerprints. -/
def PrimaryApart (primaryKey : String) (docs : List Fields) : Prop :=
  ∀ a ∈ docs, ∀ b ∈ docs, (primaryOf primaryKey a).looseEq (primaryOf primaryKey b) = true →
    (primaryOf primaryKey a).fingerprint = (primaryOf primaryKey b).fingerprint

/-- **What the loop keeps.** The documents are the rows of a table under their own keys, which are told
    apart; every index lists the keys of the rows, and nothing else. -/
structure Standing (m : Content) (t : String) (l : IndexList) (docs : List Fields) : Prop where
  sorted : OrderedMap.Sorted m
  indexes : loadIndexes Snapshot.store t m = .ok l
  scanned : Scanned m t l.primaryKey docs
  nonNull : ∀ doc ∈ docs, ∃ key, doc.get? l.primaryKey = some key ∧ key.isNull = false
  apart : PrimaryApart l.primaryKey docs
  maintained : Maintained m t l.secondary
  nothingElse : ∀ f ∈ l.secondary, ∀ e ∈ m.startingWith (Space.index t f).stem,
    ∃ doc ∈ docs, ∃ v, indexed (some doc) f = some v ∧ e.1 = (Space.index t f).key v

theorem indexed_eq_some {doc : Fields} {f : String} {v : Value} :
    indexed (some doc) f = some v ↔ doc.get? f = some v ∧ v.isNull = false := by
  unfold indexed
  rw [Option.filter_eq_some_iff]
  simp

section Standing

variable {m : Content} {t : String} {l : IndexList} {docs : List Fields}
  (h : Standing m t l docs) {doc : Fields} (hdoc : doc ∈ docs)

include h hdoc

theorem Standing.row : storedRows m t (primaryOf l.primaryKey doc).fingerprint = some doc :=
  (h.scanned.rows _ doc).mpr ⟨hdoc, rfl⟩

theorem Standing.keysApart : KeysApart (storedRows m t) (primaryOf l.primaryKey doc) := by
  have hkey : ∀ k, KeyAmong (storedRows m t) (primaryOf l.primaryKey doc) k →
      ∃ d ∈ docs, (primaryOf l.primaryKey d).fingerprint = k.fingerprint := by
    rintro k (hk | hk)
    · exact ⟨doc, hdoc, hk.symm⟩
    · obtain ⟨d, hd⟩ := Option.isSome_iff_exists.mp hk
      exact ⟨d, (h.scanned.rows _ d).mp hd⟩
  intro a b ha hb heq
  obtain ⟨d, hd, hda⟩ := hkey a ha
  obtain ⟨d', hd', hdb⟩ := hkey b hb
  rw [← Value.looseEq_congr_left b hda, ← Value.looseEq_congr_right _ hdb] at heq
  rw [← hda, ← hdb]
  exact h.apart d hd d' hd' heq

/-- An entry of a value of a document is stored. -/
theorem Standing.entry {f : String} (hf : f ∈ l.secondary) {v : Value}
    (hv : indexed (some doc) f = some v) : ∃ text, m.read ((Space.index t f).key v) = some text := by
  obtain ⟨keys, hkeys, howners⟩ := h.maintained f hf v (isNull_indexed hv)
  by_contra hnot
  have hnone : m.read ((Space.index t f).key v) = none :=
    Option.eq_none_iff_forall_ne_some.mpr fun text htext => hnot ⟨text, htext⟩
  have hempty : lookup Snapshot.store t f v m = .ok [] :=
    lookup_of_entry hnone fun k hk => absurd hk List.not_mem_nil
  rw [hkeys] at hempty
  rw [Except.ok.inj hempty] at howners
  have hplace : placeIn f (storedRows m t (primaryOf l.primaryKey doc).fingerprint)
      = some v.fingerprint := by
    rw [h.row hdoc, placeIn, hv, Option.map_some]
  exact howners.placeIn_ne hplace

/-- **After a deletion every entry is of a value of another document.** One that is left as it was and is
    of a value of the deleted document lists other keys; one that is written again is not empty. -/
theorem Standing.nothingElse_without {m' : Content}
    (hc : Committed m t l.secondary (primaryOf l.primaryKey doc) (some doc) none m')
    (hdocs : Scanned m' t l.primaryKey (withoutKeyed l.primaryKey (primaryOf l.primaryKey doc) docs))
    {f : String} (hf : f ∈ l.secondary) {e : String × String}
    (he : e ∈ m'.startingWith (Space.index t f).stem) :
    ∃ d ∈ withoutKeyed l.primaryKey (primaryOf l.primaryKey doc) docs, ∃ v,
      indexed (some d) f = some v ∧ e.1 = (Space.index t f).key v := by
  obtain ⟨hread, p, hplace⟩ := (Space.mem_entries hc.sorted).mp he
  have hbefore : ∀ text, m.read e.1 = some text →
      ∃ d ∈ docs, ∃ v, indexed (some d) f = some v ∧ e.1 = (Space.index t f).key v :=
    fun text htext => h.nothingElse f hf (e.1, text) ((Space.mem_entries h.sorted).mpr ⟨htext, p, hplace⟩)
  by_cases hwritten : ∃ g ∈ l.secondary, ∃ v, indexed (some doc) g = some v ∧
      e.1 = (Space.index t g).key v
  · obtain ⟨g, hg, v, hv, hkey⟩ := hwritten
    obtain ⟨text, htext⟩ := h.entry hdoc hg hv
    obtain ⟨-, -, v', -, hkey'⟩ := hbefore text (hkey ▸ htext)
    obtain ⟨rfl, hfingerprint⟩ := Space.entry_inj (hkey.symm.trans hkey')
    obtain ⟨keys, hkeys, howners⟩ := hc.maintained g hg v (isNull_indexed hv)
    rw [hkey] at hread
    cases keys with
    | nil =>
      -- An entry without keys would be none of a value of the deleted document.
      have hempty : readValues e.2 = .ok [] := by
        unfold lookup at hkeys
        rw [Snapshot.bind_apply, Snapshot.get_apply, hread, ok_bind] at hkeys
        exact (Snapshot.ofOutcome_apply _ _).symm.trans hkeys
      have hnot := (hc.unemptied g hg v (isNull_indexed hv) e.2 hread hempty).2.1
      rw [placeIn, hv, Option.map_some] at hnot
      exact absurd rfl hnot
    | cons k keys =>
      have howner := (howners.owners k.fingerprint).mp (List.mem_cons_self)
      obtain ⟨u, hu, hplace⟩ := Option.map_eq_some_iff.mp howner
      cases hrow : storedRows m' t k.fingerprint with
      | none =>
        rw [hrow] at hu
        cases hu
      | some d =>
        rw [hrow] at hu
        refine ⟨d, ((hdocs.rows _ d).mp hrow).1, u, hu, ?_⟩
        rw [hkey, Space.key, Space.key, hplace]
  · have hsame : m'.read e.1 = m.read e.1 := by
      refine hc.frame e.1 (hplace ▸ (Space.row_ne_entry t f _ _).symm) fun g hg v hv heq => ?_
      exact hwritten ⟨g, hg, v, hv.resolve_right (fun hnone => by cases hnone), heq⟩
    obtain ⟨d, hd, v, hv, hkey⟩ := hbefore e.2 (hsame ▸ hread)
    refine ⟨d, mem_withoutKeyed.mpr ⟨hd, fun heq => hwritten ⟨f, hf, v, ?_, hkey⟩⟩, v, hv, hkey⟩
    have hrow := h.row hd
    rw [heq, h.row hdoc] at hrow
    exact Option.some.inj hrow ▸ hv

/-- **One deletion takes a document from the table and from every index, and nothing else.** -/
theorem Standing.leads_commit (hback : KeysReadBack m t l.secondary) :
    Leads (fun r m' => r = .ok () ∧
      Standing m' t l (withoutKeyed l.primaryKey (primaryOf l.primaryKey doc) docs) ∧
      KeysReadBack m' t l.secondary) m
    (commit Memory.store t l (primaryOf l.primaryKey doc) (some doc) none) := by
  have hold : documentAt m t (primaryOf l.primaryKey doc) = .ok (some doc) := by
    rw [h.scanned.document h.sorted, h.row hdoc]
  have hnone : ∀ new, (none : Option Fields) = some new →
      new.Storable ∧ (primaryOf l.primaryKey doc).Storable := fun _ hnew => by cases hnew
  obtain ⟨ws, hws, hc⟩ := committed_writes h.sorted hold h.maintained hback (h.keysApart hdoc) hnone
  have hdocs := h.scanned.without h.sorted hc.sorted (read_commit_row h.sorted hws)
    fun p hp => read_commit_row_other h.sorted hws hp
  refine Leads.bind_answer (reads_indexWrites t _ _ _ l.secondary) hws (Leads.batch ⟨rfl, ?_⟩)
  have hindexes : loadIndexes Snapshot.store t (m.applyAll (commitWrites t
      (primaryOf l.primaryKey doc) none ws)) = .ok l :=
    (loadIndexes_congr (hc.frame _ (Space.row_ne_record t _ _).symm
      fun f _ v _ => (Space.entry_ne_record t f _ _).symm)).trans h.indexes
  refine ⟨?_, hc.readBack⟩
  exact {
    sorted := hc.sorted
    indexes := hindexes
    scanned := hdocs
    nonNull := fun d hd => h.nonNull d (mem_withoutKeyed.mp hd).1
    apart := fun a ha b hb => h.apart a (mem_withoutKeyed.mp ha).1 b (mem_withoutKeyed.mp hb).1
    maintained := hc.maintained
    nothingElse := fun f hf e he => h.nothingElse_without hdoc hc hdocs hf he }

end Standing

/-! ## 2. The loop -/

theorem Standing.inStep {config : Config} {s : Memory} (hs : Healthy s) {t : String}
    {l : IndexList} {docs : List Fields} (h : Standing s.content t l docs) :
    InStep config s t l docs := by
  refine ⟨?_, ?_, h.scanned.nodup, fun f hf v hv => ?_, fun f hf e he => ?_⟩
  · rw [(reads_indexes (t := tableOf config t) rfl s hs).1]
    exact h.indexes
  · rw [(reads_scan (t := tableOf config t) rfl s hs).1]
    exact Scanned.scan (t := tableOf config t) h.scanned
  · obtain ⟨keys, hkeys, howners⟩ := h.maintained f hf v hv
    refine ⟨keys, ?_, howners.perm (h.scanned.owners f v.fingerprint)⟩
    rw [(reads_lookup t f v s hs).1, hkeys]
  · obtain ⟨doc, hdoc, v, hv, hkey⟩ := h.nothingElse f hf e he
    obtain ⟨hget, hnull⟩ := indexed_eq_some.mp hv
    exact ⟨doc, hdoc, v, hget, hnull, hkey⟩

/-- What is answered without a failure is reported as it is. -/
theorem leads_report {m : Content} {x : Session WriteResult} {a : WriteResult} {Q : Content → Prop}
    (h : Leads (fun r m' => r = .ok a ∧ Q m') m x) :
    Leads (fun r m' => r = .ok a ∧ Q m') m (WriteResult.report x) :=
  h.tryCatch (fun _ _ hok => hok) fun _ _ herror => by cases herror.1

section Loop

variable {t : Table Session} (ht : t.store = Memory.store) {m : Content} {l : IndexList}
  {docs : List Fields}

include ht

theorem Standing.leads_deleteKey (h : Standing m t.name l docs)
    (hback : KeysReadBack m t.name l.secondary) {doc : Fields} (hdoc : doc ∈ docs) :
    Leads (fun r m' => r = .ok { deleted := 1 } ∧
        Standing m' t.name l (withoutKeyed l.primaryKey (primaryOf l.primaryKey doc) docs) ∧
        KeysReadBack m' t.name l.secondary) m
      (t.deleteKey l (primaryOf l.primaryKey doc)) := by
  have hrow : t.snapshot.fetch (primaryOf l.primaryKey doc) m = .ok (some doc) := by
    rw [fetch_snapshot, h.scanned.document h.sorted, h.row hdoc]
  refine Leads.bind_answer (reads_fetch ht _) hrow ?_
  rw [ht]
  refine (h.leads_commit hdoc hback).bind (fun e m' he => by cases he.1) fun _ m' hm' => ?_
  exact Leads.pure ⟨rfl, hm'.2⟩

/-- **The loop deletes what it is given,** one document after another. -/
theorem Standing.leads_deleteItems (h : Standing m t.name l docs)
    (hback : KeysReadBack m t.name l.secondary) {chosen : List Fields} (hnodup : chosen.Nodup)
    (hchosen : ∀ doc ∈ chosen, doc ∈ docs) (n : Nat) :
    Leads (fun r m' => r = .ok { deleted := n + chosen.length } ∧ ∃ rest,
        Standing m' t.name l rest ∧ rest.Sublist docs ∧ ∀ doc, doc ∈ rest ↔ doc ∈ docs ∧ doc ∉ chosen)
      m (t.deleteItems l { deleted := n } (chosen.map .object)) := by
  induction chosen generalizing m docs n with
  | nil => exact Leads.pure ⟨rfl, docs, h, List.Sublist.refl docs, fun doc => by simp⟩
  | cons doc chosen ih =>
    obtain ⟨hfresh, hnodup⟩ := List.nodup_cons.mp hnodup
    obtain ⟨hdoc, hchosen⟩ := List.forall_mem_cons.mp hchosen
    -- Documents with one key are one document.
    have hone : ∀ d ∈ docs, (primaryOf l.primaryKey d).fingerprint
        = (primaryOf l.primaryKey doc).fingerprint → d = doc := by
      intro d hd heq
      have hrow := h.row hd
      rw [heq, h.row hdoc] at hrow
      exact (Option.some.inj hrow).symm
    obtain ⟨key, hkey, hnull⟩ := h.nonNull doc hdoc
    have hitem : (Fields.get? doc l.primaryKey).filter (fun k => !k.isNull)
        = some (primaryOf l.primaryKey doc) := by
      rw [primaryOf, hkey, Option.filter_some, hnull]
      rfl
    rw [List.map_cons]
    unfold Table.deleteItems
    dsimp only
    rw [hitem]
    refine (leads_report (h.leads_deleteKey ht hback hdoc)).bind (fun e m' he => by cases he.1)
      fun result m' hm' => ?_
    obtain ⟨hresult, hstanding, hback⟩ := hm'
    cases hresult
    have hleft : ∀ d ∈ chosen, d ∈ withoutKeyed l.primaryKey (primaryOf l.primaryKey doc) docs := by
      intro d hd
      refine mem_withoutKeyed.mpr ⟨hchosen d hd, fun heq => hfresh ?_⟩
      exact hone d (hchosen d hd) heq ▸ hd
    refine (ih hstanding hback hnodup hleft (n + 1)).mono fun r m'' hr => ?_
    obtain ⟨hr, rest, hrest, hsub, hmem⟩ := hr
    refine ⟨?_, rest, hrest, hsub.trans List.filter_sublist, fun d => ?_⟩
    · rw [hr, List.length_cons, Nat.add_assoc, Nat.add_comm 1]
    · rw [hmem, mem_withoutKeyed, List.mem_cons, not_or, and_assoc]
      refine and_congr_right fun hd => and_congr_left fun _ => not_congr ⟨hone d hd, ?_⟩
      rintro rfl
      rfl

end Loop

/-! ## 3. Deleting a selection -/

section Selection

variable {t : Table Session} (ht : t.store = Memory.store) {scope : Scope}
  {keys : Option (KeyScope Session)} {entries : List (Entry Session)} {docs : List Fields}

include ht

/-- **The documents of a table or of keys are documents of the scan,** none of them twice. -/
theorem documents_answer {config : Config} {s : Memory} (hhealthy : Healthy s)
    (hs : OrderedMap.Sorted s.content) {l : IndexList} (hown : OwnKeys config s t.name l)
    (hstep : InStep config s t.name l docs)
    (hkeys : ∀ k ∈ keys, OperandsTasks (Anyway fun _ => Steady) k.keys) {items : List Value}
    (h : Answers (t.documents scope keys) s.content items) :
    ∃ answer : List Fields, items = answer.map .object ∧ answer.Nodup ∧ ∀ doc ∈ answer, doc ∈ docs := by
  have hdocs := hstep.scanned hhealthy hs hown
  cases keys with
  | none =>
    have hscan := (reads_scan ht).of_answers h
    rw [hdocs.scan] at hscan
    exact ⟨docs, (Except.ok.inj hscan).symm, hdocs.nodup.of_map, fun doc hdoc => hdoc⟩
  | some k =>
    have hsteady := (closed_steady.resolveAll k.keys (hkeys k rfl) scope).1
    obtain ⟨values, -, hkeyed⟩ := h.of_bind hsteady.1
    have hread : t.snapshot.keyed k.index values s.content = .ok items :=
      (reads_keyed ht k.index values).of_answers hkeyed
    have hl := hown.loadIndexes hhealthy
    have hfield : k.index.getD l.primaryKey = l.primaryKey ∨
        k.index.getD l.primaryKey ∈ l.secondary := by
      by_contra hnone
      obtain ⟨hprimary, hsecondary⟩ := not_or.mp hnone
      obtain ⟨f, hf⟩ := exists_index hprimary
      rw [hf] at hread hprimary hsecondary
      have herror := keyed_error (t := t) hl (show f ≠ _ from hprimary) (show f ∉ _ from hsecondary)
        values
      rw [hread] at herror
      cases herror
    obtain ⟨answer, hanswer, hby⟩ := keyed_answer hs hl hdocs
      (fun doc hdoc => hown.nonNull hs hdocs hdoc)
      (fun f hf => hstep.faithful hhealthy hs hown hf) hfield values
    rw [hread] at hanswer
    exact ⟨answer, Except.ok.inj hanswer, hby.once, fun doc hdoc => ((hby.exact doc).mp hdoc).1⟩

/-- **A deletion removes what the same queue answers.** In a session without faults, for a table whose
    rows stand under their own keys, whose indexes are in step, and whose loosely equal keys have equal
    fingerprints: when a queue of filters, `distinct` and limits is run and answers documents, then a
    delete by the same queue counts as many and nothing else, the documents are gone from the scan, and
    the indexes are in step with the others. The keys that the indexes list have to be read back from
    their texts. -/
theorem selection_delete_removes {config : Config} {s : Memory} (hhealthy : Healthy s)
    (hs : OrderedMap.Sorted s.content) {l : IndexList} (hown : OwnKeys config s t.name l)
    (hstep : InStep config s t.name l docs)
    (hapart : PrimaryApart l.primaryKey docs) (hback : KeysReadBack s.content t.name l.secondary)
    (hkeys : ∀ k ∈ keys, OperandsTasks (Anyway fun _ => Steady) k.keys)
    (htasks : EntriesTasks (Anyway fun _ => Steady) entries) (hdrops : ∀ entry ∈ entries, Drops entry)
    {chosen : List Value} (hrun : ((t.stream scope keys entries).on s).1 = .ok (.array chosen)) :
    let deletion := (t.deleteStream scope keys entries).on s
    deletion.1 = .ok { deleted := chosen.length } ∧ ∃ rest,
      InStep config deletion.2 t.name l rest ∧ rest.Sublist docs ∧
      ∀ doc, doc ∈ rest ↔ doc ∈ docs ∧ Value.object doc ∉ chosen := by
  have hreads : ReadsAt (fun _ => Steady) t.store t.name := ht ▸ readsAt_steady t.name
  have hpipeline := closed_steady.ofEntries htasks scope
  have hdocuments : Anyway (fun _ => Steady) (t.documents scope keys) := hreads.documents hkeys
  have hindexes := hown.loadIndexes hhealthy
  -- What the run has answered, part by part.
  obtain ⟨p, hp, hthen⟩ := Answers.of_bind hpipeline.1.1 ⟨s, hhealthy, rfl, hrun⟩
  obtain ⟨items, hitems, hanswer⟩ := hthen.of_bind hdocuments.1.1
  obtain ⟨hstages, hrest⟩ : (∀ stage ∈ p.stages, DropsStage stage) ∧ p.rest = [] := by
    obtain ⟨s', -, -, hon⟩ := hp
    exact ofEntries_drops hdrops hon
  have hout : chosen.Sublist items := by
    obtain ⟨s', -, -, hon⟩ := hanswer
    obtain ⟨out, hchosen, hsub⟩ := run_drops hstages hrest hon
    exact Value.array.inj hchosen ▸ hsub
  obtain ⟨answer, rfl, hnodup, hanswers⟩ := documents_answer ht hhealthy hs hown hstep hkeys hitems
  obtain ⟨picked, hpicked, rfl⟩ := List.sublist_map_iff.mp hout
  have hstanding : Standing s.content t.name l docs := {
    sorted := hs
    indexes := hindexes
    scanned := hstep.scanned hhealthy hs hown
    nonNull := fun doc hdoc => hown.nonNull hs (hstep.scanned hhealthy hs hown) hdoc
    apart := hapart
    maintained := fun f hf v _ => hstep.faithful hhealthy hs hown hf v
    nothingElse := fun f hf e he => by
      obtain ⟨doc, hdoc, v, hget, hnull, hkey⟩ := hstep.nothingElse f hf e he
      exact ⟨doc, hdoc, v, indexed_eq_some.mpr ⟨hget, hnull⟩, hkey⟩ }
  have hloop := hstanding.leads_deleteItems ht hback (hpicked.nodup hnodup)
    (fun doc hdoc => hanswers doc (hpicked.subset hdoc)) 0
  rw [Nat.zero_add] at hloop
  -- The same parts answer the same again.
  have hdeletion : Leads (fun r m' => r = .ok { deleted := picked.length } ∧ ∃ rest,
      Standing m' t.name l rest ∧ rest.Sublist docs ∧ ∀ doc, doc ∈ rest ↔ doc ∈ docs ∧ doc ∉ picked)
      s.content (t.deleteStream scope keys entries) := by
    refine Leads.bind_steady hpipeline hp (leads_report ?_)
    refine Leads.bind_answer (reads_indexes ht) hindexes ?_
    refine Leads.bind_steady hdocuments hitems ?_
    exact Leads.bind_steady (closed_steady.run (hpipeline.1.2 _ _ hp) _) hanswer hloop
  obtain ⟨hs', hresult, rest, hrest, hsub, hmem⟩ := hdeletion s hhealthy rfl
  refine ⟨by rw [hresult, List.length_map], rest, hrest.inStep hs', hsub, fun doc => ?_⟩
  rw [hmem, List.mem_map_of_injective fun _ _ h => Value.object.inj h]

end Selection

/-! ### Two things -/

/-- The keys that the indexes of a consistent table list are read back. -/
theorem TableAt.keysReadBack {P : String → Prop} {m : Content} {t : String} {l : IndexList}
    {rows : Rows} (h : TableAt P m t l rows) : KeysReadBack m t l.secondary := by
  intro f hf v _ keys hkeys
  obtain ⟨keys', hread, hlists⟩ := h.entries f hf v.fingerprint
  have hkeys' := lookup_of_entry (m := m) (v := v) hread hlists.storable
  rw [hkeys] at hkeys'
  exact Except.ok.inj hkeys' ▸ hlists.storable

/-- The items of a list. -/
def itemsOf : Value → Option (List Value)
  | .array items => some items
  | _ => none

theorem eq_array_of_itemsOf {x : Except Error Value} {texts : List String}
    (h : (x.toOption.bind itemsOf).map (List.map Value.json) = some texts) :
    ∃ items, x = .ok (.array items) ∧ items.map Value.json = texts := by
  obtain ⟨items, hitems, htexts⟩ := Option.map_eq_some_iff.mp h
  obtain ⟨v, hv, harray⟩ := Option.bind_eq_some_iff.mp hitems
  refine ⟨items, ?_, htexts⟩
  cases v with
  | array items' => exact (ok_of_toOption hv).trans (by rw [Option.some.inj harray])
  | _ => cases harray

/-- Of the things that are red, or of the colour of the second, the first is deleted. -/
theorem first_red_thing_deleted :
    let t := tableOf {} "things"
    let keys : KeyScope Session := ⟨some "colour",
      [.literal (.string "red"), (fieldOf "things" (.count 2) "colour").toOperand]⟩
    let entries : List (Entry Session) := [.filter (.pattern [("colour", .string "red")]), .distinct,
      .limit (.literal (.count 1))]
    let deletion := (t.deleteStream [] (some keys) entries).on twoThings
    ∃ docs chosen rest, InStep {} twoThings "things" ⟨"id", ["colour"]⟩ docs ∧
      ((t.stream [] (some keys) entries).on twoThings).1 = .ok (.array chosen) ∧
      chosen.map Value.json = ["\x7b\"id\":1,\"colour\":\"red\"\x7d"] ∧
      deletion.1 = .ok { deleted := chosen.length } ∧
      InStep {} deletion.2 "things" ⟨"id", ["colour"]⟩ rest ∧ rest.Sublist docs ∧
      (∀ doc, doc ∈ rest ↔ doc ∈ docs ∧ Value.object doc ∉ chosen) ∧
      deletion.2.content.read ((Space.index "things" "colour").key (.string "red")) = some "[2]" := by
  intro t keys entries deletion
  obtain ⟨hs, T, hT, hthings, hl⟩ := twoThings_consistent
  obtain ⟨docs, hstep⟩ := twoThings_inStep
  have htable := hT.table "things" hthings
  have hback := htable.keysReadBack
  rw [hl] at hback
  have hdocs := hstep.scanned hs hT.sorted twoThings_ownKeys
  have hknown : ∀ doc ∈ docs, ∃ k, OrdinaryKey k ∧
      k.fingerprint = (primaryOf "id" doc).fingerprint := by
    intro doc hdoc
    have hrow := (hdocs.rows _ doc).mpr ⟨hdoc, rfl⟩
    rw [htable.storedRows] at hrow
    exact (htable.row _ doc hrow).known
  have hapart : PrimaryApart "id" docs := fun a ha b hb heq =>
    apart_ordinary.eq_of_looseEq _ _ (hknown a ha) (hknown b hb) heq
  obtain ⟨chosen, hchosen, htexts⟩ : ∃ chosen,
      ((t.stream [] (some keys) entries).on twoThings).1 = .ok (.array chosen) ∧
        chosen.map Value.json = ["\x7b\"id\":1,\"colour\":\"red\"\x7d"] :=
    eq_array_of_itemsOf (by decide +kernel)
  have hkeys : ∀ k ∈ some keys, OperandsTasks (Anyway fun _ => Steady) k.keys := by
    intro k hk
    obtain rfl := Option.some.inj hk
    exact ⟨trivial, steady_handle rfl trivial ⟨trivial, trivial⟩, trivial⟩
  have htasks : EntriesTasks (Anyway fun _ => Steady) entries := ⟨trivial, trivial, trivial, trivial⟩
  have hdrops : ∀ entry ∈ entries, Drops entry := by simp [entries, Drops]
  obtain ⟨hresult, rest, hrest, hsub, hmem⟩ := selection_delete_removes (t := t) rfl hs hT.sorted
    twoThings_ownKeys hstep hapart hback hkeys htasks hdrops hchosen
  exact ⟨docs, chosen, rest, hstep, hchosen, htexts, hresult, hrest, hsub, hmem, by decide +kernel⟩

/-! ### A key that is not read back -/

/-- A store with two red things. The key of the second is a double, written in full. -/
def redPair : Content := Content.applyAll [] [(IndexList.mk "id" ["colour"]).record "things",
  .put ((Space.primary "things").named "1") (Value.object (thing 1 "red")).json,
  .put ((Space.primary "things").named "3.3e+30") bigThingText,
  .put ((Space.index "things" "colour").named "\"red\"") "[1,3300000000000000000000000000000]"]

/-- What it holds: two rows, and the list of the one value that the index has. -/
theorem redPair_holds :
    redPair.startingWith (Space.primary "things").stem
        = [((Space.primary "things").named "1", (Value.object (thing 1 "red")).json),
          ((Space.primary "things").named "3.3e+30", bigThingText)] ∧
      redPair.startingWith (Space.index "things" "colour").stem
        = [((Space.index "things" "colour").named "\"red\"",
          "[1,3300000000000000000000000000000]")] ∧
      (readValues "[1,3300000000000000000000000000000]").toOption.map (List.map Value.fingerprint)
        = some ["1", "3.3e+30"] := by decide +kernel

theorem redPair_rows : redPair.startingWith (Space.primary "things").stem
    = [((Space.primary "things").named "1", (Value.object (thing 1 "red")).json),
      ((Space.primary "things").named "3.3e+30", bigThingText)] := redPair_holds.1

theorem redPair_entries : redPair.startingWith (Space.index "things" "colour").stem
    = [((Space.index "things" "colour").named "\"red\"", "[1,3300000000000000000000000000000]")] :=
  redPair_holds.2.1

/-- What its things hold: keys that differ, and the colour of the first. -/
theorem redPair_things :
    (readDocument bigThingText).toOption.map (fun doc =>
        ((primaryOf "id" doc).looseEq (primaryOf "id" (thing 1 "red")),
          (primaryOf "id" (thing 1 "red")).looseEq (primaryOf "id" doc))) = some (false, false) ∧
      placeIn "colour" (some (thing 1 "red")) = some "\"red\"" ∧
      (primaryOf "id" (thing 1 "red")).fingerprint = "1" := by decide +kernel

theorem redPair_ownKeys : OwnKeys {} { content := redPair } "things" ⟨"id", ["colour"]⟩ := by
  refine ⟨ok_of_toOption (by decide +kernel), fun e he => ?_⟩
  change e ∈ redPair.startingWith _ at he
  rw [redPair_rows] at he
  rcases List.mem_pair.mp he with rfl | rfl
  · exact ⟨thing 1 "red", .count 1, readDocument_json (storable_thing 1 "red"), rfl, rfl, rfl⟩
  · obtain ⟨doc, key, hdoc, hkey, hnull, hfingerprint, -⟩ := readDocument_bigThing
    exact ⟨doc, key, hdoc, hkey, hnull, by rw [Space.key, hfingerprint]⟩

/-- Only the fingerprints of a list decide whose keys it has. -/
theorem Owners.of_fingerprints {rows : Rows} {field place : String} {keys keys' : List Value}
    (h : Owners rows field place keys)
    (heq : keys'.map Value.fingerprint = keys.map Value.fingerprint) :
    Owners rows field place keys' := ⟨heq ▸ h.nodup, fun p => heq ▸ h.owners p⟩

/-- Their documents, which have small and apart keys and are both listed under their colour. -/
theorem redPair_scanned : ∃ docs, Scanned redPair "things" "id" docs ∧
    (∀ doc ∈ docs, ∃ key, doc.get? "id" = some key ∧ key.isNull = false) ∧
    PrimaryApart "id" docs ∧ thing 1 "red" ∈ docs ∧
    ∀ p, (keysUnder "id" "colour" p docs).map Value.fingerprint
      = if p = "\"red\"" then ["1", "3.3e+30"] else [] := by
  have hs : OrderedMap.Sorted redPair := Content.sorted_applyAll List.Pairwise.nil _
  obtain ⟨docs, hdocs⟩ := exists_scanned hs redPair_ownKeys.rows
  obtain ⟨big, key, hbig, hkey, hnull, hfingerprint, hcolour⟩ := readDocument_bigThing
  obtain rfl : [thing 1 "red", big] = docs := by
    have hread := hdocs.read
    rw [redPair_rows, List.mapM_cons, readDocument_json (storable_thing 1 "red"), ok_bind,
      List.mapM_cons, hbig] at hread
    exact Except.ok.inj hread
  refine ⟨_, hdocs, fun doc hdoc => ?_, fun a ha b hb heq => ?_, List.mem_cons_self, fun p => ?_⟩
  · rcases List.mem_pair.mp hdoc with rfl | rfl
    · exact ⟨.count 1, rfl, rfl⟩
    · exact ⟨key, hkey, hnull⟩
  · have hloose := redPair_things.1
    rw [hbig] at hloose
    obtain ⟨hright, hleft⟩ := Prod.mk.inj (Option.some.inj hloose)
    rcases List.mem_pair.mp ha with rfl | rfl <;> rcases List.mem_pair.mp hb with rfl | rfl
    · rfl
    · cases hleft.symm.trans heq
    · cases hright.symm.trans heq
    · rfl
  · have hone := redPair_things.2.1
    have hkeys : (primaryOf "id" (thing 1 "red")).fingerprint = "1" ∧
        (primaryOf "id" big).fingerprint = "3.3e+30" := by
      refine ⟨redPair_things.2.2, ?_⟩
      rw [primaryOf, hkey]
      exact hfingerprint
    unfold keysUnder
    by_cases hp : p = "\"red\""
    · simp [hp, hone, hcolour, hkeys]
    · simp [hp, hone, hcolour, Ne.symm hp]

theorem read_redPair_entry {v : Value} {text : String} :
    redPair.read ((Space.index "things" "colour").key v) = some text
      ↔ v.fingerprint = "\"red\"" ∧ text = "[1,3300000000000000000000000000000]" := by
  have hs : OrderedMap.Sorted redPair := Content.sorted_applyAll List.Pairwise.nil _
  have hmem : ((Space.index "things" "colour").key v, text)
      ∈ redPair.startingWith (Space.index "things" "colour").stem
        ↔ redPair.read ((Space.index "things" "colour").key v) = some text := by
    rw [Space.mem_entries hs]
    exact and_iff_left ⟨v.fingerprint, rfl⟩
  rw [← hmem, redPair_entries, List.mem_singleton, Prod.mk.injEq]
  exact and_congr_left fun _ => ⟨Space.named_injective, congrArg _⟩

/-- The index on the colour lists both things, under no other value. -/
theorem redPair_maintained {docs : List Fields} (hdocs : Scanned redPair "things" "id" docs)
    (hunder : ∀ p, (keysUnder "id" "colour" p docs).map Value.fingerprint
      = if p = "\"red\"" then ["1", "3.3e+30"] else []) :
    Maintained redPair "things" ["colour"] := by
  intro f hf v _
  obtain rfl := List.mem_singleton.mp hf
  have howners := hdocs.owners "colour" v.fingerprint
  by_cases hv : v.fingerprint = "\"red\""
  · obtain ⟨keys, hkeys, hlisted⟩ := Option.map_eq_some_iff.mp redPair_holds.2.2
    refine ⟨keys, ?_, howners.of_fingerprints ?_⟩
    · unfold lookup
      rw [Snapshot.bind_apply, Snapshot.get_apply, read_redPair_entry.mpr ⟨hv, rfl⟩, ok_bind]
      exact (Snapshot.ofOutcome_apply _ _).trans (ok_of_toOption hkeys)
    · rw [hlisted, hunder, if_pos hv]
  · have hnone : redPair.read ((Space.index "things" "colour").key v) = none :=
      Option.eq_none_iff_forall_ne_some.mpr fun text htext => hv (read_redPair_entry.mp htext).1
    refine ⟨[], lookup_of_entry hnone fun k hk => absurd hk List.not_mem_nil,
      howners.of_fingerprints ?_⟩
    rw [hunder, if_neg hv]
    rfl

theorem redPair_standing : ∃ docs, Standing redPair "things" ⟨"id", ["colour"]⟩ docs := by
  have hs : OrderedMap.Sorted redPair := Content.sorted_applyAll List.Pairwise.nil _
  obtain ⟨docs, hdocs, hnonNull, hapart, hone, hunder⟩ := redPair_scanned
  refine ⟨docs, hs, redPair_ownKeys.loadIndexes ⟨rfl⟩, hdocs, hnonNull, hapart,
    redPair_maintained hdocs hunder, fun f hf e he => ?_⟩
  obtain rfl := List.mem_singleton.mp hf
  rw [redPair_entries] at he
  rw [List.mem_singleton.mp he]
  exact ⟨thing 1 "red", hone, .string "red", rfl, by decide +kernel⟩

/-- Once the first thing is deleted, the key of the other is listed as a text that is read as a double
    beside it. -/
theorem big_key_lost_by_deletion :
    let s : Memory := { content := redPair }
    let entries : List (Entry Session) := [.limit (.literal (.count 1))]
    let deletion := ((tableOf {} "things").deleteStream [] none entries).on s
    (OwnKeys {} s "things" ⟨"id", ["colour"]⟩ ∧
      ∃ docs, InStep {} s "things" ⟨"id", ["colour"]⟩ docs ∧ PrimaryApart "id" docs) ∧
    (∃ chosen, (((tableOf {} "things").stream [] none entries).on s).1 = .ok (.array chosen) ∧
      chosen.map Value.json = ["\x7b\"id\":1,\"colour\":\"red\"\x7d"]) ∧
    deletion.1.toOption = some { deleted := 1 } ∧
    ¬∃ rest, InStep {} deletion.2 "things" ⟨"id", ["colour"]⟩ rest := by
  intro s entries deletion
  obtain ⟨docs, hdocs⟩ := redPair_standing
  refine ⟨⟨redPair_ownKeys, docs, hdocs.inStep ⟨rfl⟩, hdocs.apart⟩,
    eq_array_of_itemsOf (by decide +kernel), by decide +kernel, ?_⟩
  rintro ⟨rest, h⟩
  obtain ⟨keys, hkeys, hperm⟩ := h.exact "colour" (List.mem_singleton.mpr rfl) (.string "red") rfl
  have hlisted : ((lookup Memory.store "things" "colour" (.string "red")).on deletion.2).1.toOption.map
      (List.map Value.fingerprint) = some ["3.2999999999999997e+30"] := by decide +kernel
  have hleft : ((tableOf {} "things").scan.on deletion.2).1.toOption.map (List.map fun row =>
      ((row.select (.string "id")).toOption.getD .null).fingerprint) = some ["3.3e+30"] := by
    decide +kernel
  rw [hkeys] at hlisted
  rw [h.documents] at hleft
  have hlost : "3.2999999999999997e+30" ∈ (keysUnder "id" "colour"
      (Value.string "red").fingerprint rest).map Value.fingerprint :=
    hperm.mem_iff.mp (Option.some.inj hlisted ▸ List.mem_singleton.mpr rfl)
  obtain ⟨k, hk, hlost⟩ := List.mem_map.mp hlost
  obtain ⟨doc, hdoc, rfl⟩ := List.mem_map.mp hk
  have hrow := List.mem_map_of_mem (f := fun row =>
    ((row.select (.string "id")).toOption.getD .null).fingerprint)
      (List.mem_map_of_mem (f := Value.object) (List.mem_filter.mp hdoc).1)
  rw [Option.some.inj hleft, List.mem_singleton] at hrow
  exact absurd (hlost.symm.trans hrow) (by decide)

end KeyValue

end QueryAlgebra
