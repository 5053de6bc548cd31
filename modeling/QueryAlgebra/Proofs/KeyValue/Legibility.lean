import QueryAlgebra.Proofs.Json.Nesting
import QueryAlgebra.Proofs.KeyValue.Commit
import QueryAlgebra.Proofs.KeyValue.Pipeline
import QueryAlgebra.Proofs.KeyValue.RowWrites

/-!
# Tables stay readable

A scan reads every row, so one row whose text the reader rejects takes all of them along. A write
checks nothing of what it is given against the reader: what it writes can be read exactly when it
does not nest deeper than the reader's limit (`legible_commit_iff`). Number for number it need not be
read as what was written.

* `Legible`: every row of a table can be read, so that running the table with an empty queue
  succeeds (`runs_iff`).
* `Grows`: rows are only written, with documents that can be read, and none is lost.
* `RowStep.legible`, `leads_reportEach_grows`: one write, and an insert of documents one after
  another.
* `writes_leave_table_readable`: the table stays readable, and under every key that was written a
  document is found.
-/

namespace QueryAlgebra

/-- The rows that a write has left with the data that was to be there. -/
def WriteResult.settled (r : WriteResult) : Nat := r.inserted + r.replaced + r.unchanged

namespace KeyValue

/-! ## 1. Rows that can be read -/

/-- Every row of a table can be read. -/
def Legible (m : Content) (t : String) : Prop :=
  ∀ p text, m.read ((Space.primary t).named p) = some text → ∃ v, readRecord text = .ok v

/-- A document is found under a key. -/
def Found (m : Content) (t : String) (key : Value) : Prop :=
  ∃ doc, documentAt m t key = .ok (some doc)

/-- The text of a document is read as a document. -/
theorem readDocument_text {doc : Fields} (h : (Value.object doc).depth ≤ Json.depthLimit) :
    readDocument (Value.object doc).json = .ok (Value.rereadFields [] doc) := by
  have hcloses : (Value.object doc).Closes := trivial
  unfold readDocument readRecord
  rw [Json.read_text hcloses, if_pos h, Value.reread]
  rfl

theorem readRecord_eq_ok {text : String} {v : Value} (h : readRecord text = .ok v) :
    Json.read text = some v := by
  unfold readRecord at h
  split at h
  · next w hw =>
    cases h
    exact hw
  · cases h

/-- **The text of a document is read exactly when it does not nest too deeply.** -/
theorem exists_readRecord_text_iff {doc : Fields} :
    (∃ v, readRecord (Value.object doc).json = .ok v)
      ↔ (Value.object doc).depth ≤ Json.depthLimit := by
  constructor
  · rintro ⟨v, hv⟩
    have hcloses : (Value.object doc).Closes := trivial
    by_contra hdeep
    have hread := readRecord_eq_ok hv
    rw [Json.read_text hcloses, if_neg hdeep] at hread
    cases hread
  · intro h
    obtain ⟨v, hv, -⟩ := bind_eq_ok.mp (readDocument_text h)
    exact ⟨v, hv⟩

/-- A document that is read does not nest deeper than what can be read. -/
theorem depth_le_of_readDocument {text : String} {doc : Fields} (h : readDocument text = .ok doc) :
    (Value.object doc).depth ≤ Json.depthLimit := by
  obtain ⟨v, hv, hdoc⟩ := bind_eq_ok.mp h
  have hdepth := Json.depth_le_of_read (readRecord_eq_ok hv)
  cases v with
  | object fields =>
    cases hdoc
    exact hdepth
  | _ => cases hdoc

theorem depth_le_of_documentAt {m : Content} {t : String} {key : Value} {doc : Fields}
    (h : documentAt m t key = .ok (some doc)) : (Value.object doc).depth ≤ Json.depthLimit := by
  unfold documentAt at h
  split at h
  · cases h
  · obtain ⟨read, hread, heq⟩ := map_eq_ok.mp h
    cases heq
    exact depth_le_of_readDocument hread

theorem documentAt_eq_none {m : Content} {t : String} {key : Value} :
    documentAt m t key = .ok none ↔ m.read ((Space.primary t).key key) = none := by
  unfold documentAt
  cases m.read ((Space.primary t).key key) with
  | none => simp
  | some text => cases h : readDocument text <;> simp [h]

theorem found_of_read {m : Content} {t : String} {key : Value} {doc : Fields}
    (hread : m.read ((Space.primary t).key key) = some (Value.object doc).json)
    (hdoc : (Value.object doc).depth ≤ Json.depthLimit) : Found m t key := by
  refine ⟨Value.rereadFields [] doc, ?_⟩
  unfold documentAt
  rw [hread]
  show some <$> readDocument (Value.object doc).json = _
  rw [readDocument_text hdoc]
  rfl

/-! ## 2. Rows that are written -/

/-- From one content to another rows are only written, with documents that can be read. -/
def Grows (t : String) (m m' : Content) : Prop :=
  ∀ p, m'.read ((Space.primary t).named p) = m.read ((Space.primary t).named p) ∨
    ∃ doc, m'.read ((Space.primary t).named p) = some (Value.object doc).json ∧
      (Value.object doc).depth ≤ Json.depthLimit

namespace Grows

variable {t : String} {m m' m'' : Content}

theorem refl (t : String) (m : Content) : Grows t m m := fun _ => Or.inl rfl

theorem trans (h : Grows t m m') (h' : Grows t m' m'') : Grows t m m'' := by
  intro p
  rcases h' p with heq | hdoc
  · rw [heq]
    exact h p
  · exact Or.inr hdoc

theorem legible (h : Grows t m m') (hm : Legible m t) : Legible m' t := by
  intro p text htext
  rcases h p with heq | ⟨doc, hread, hdepth⟩
  · exact hm p text (heq ▸ htext)
  · obtain rfl := Option.some.inj (hread.symm.trans htext)
    exact ⟨_, readRecord_of_readDocument (readDocument_text hdepth)⟩

/-- A document that is there stays there, or another that can be read comes in its place. -/
theorem found (h : Grows t m m') {key : Value} (hm : Found m t key) : Found m' t key := by
  rcases h key.fingerprint with heq | ⟨doc, hread, hdepth⟩
  · obtain ⟨doc, hdoc⟩ := hm
    exact ⟨doc, (documentAt_congr heq).trans hdoc⟩
  · exact found_of_read hread hdepth

/-- Where nothing is, there was nothing. -/
theorem free (h : Grows t m m') {key : Value} (hm : documentAt m' t key = .ok none) :
    documentAt m t key = .ok none := by
  rw [documentAt_eq_none] at hm ⊢
  rcases h key.fingerprint with heq | ⟨doc, hread, -⟩
  · exact heq.symm.trans hm
  · cases hread.symm.trans hm

end Grows

section Commit

variable {m : Content} {t : String} {key : Value} {old : Option Fields} {fields : List String}
  {ws : List Write} (hs : OrderedMap.Sorted m)

include hs

theorem grows_commit {new : Fields}
    (hws : indexWrites Snapshot.store t key old (some new) fields m = .ok ws)
    (hnew : (Value.object new).depth ≤ Json.depthLimit) :
    Grows t m (m.applyAll (commitWrites t key (some new) ws)) := by
  intro p
  by_cases hp : p = key.fingerprint
  · rw [hp]
    exact Or.inr ⟨new, read_commit_row hs hws, hnew⟩
  · exact Or.inl (read_commit_row_other hs hws hp)

/-- **What a commit writes can be read exactly when it does not nest too deeply.** -/
theorem legible_commit_iff {new : Fields}
    (hws : indexWrites Snapshot.store t key old (some new) fields m = .ok ws) (hm : Legible m t) :
    Legible (m.applyAll (commitWrites t key (some new) ws)) t
      ↔ (Value.object new).depth ≤ Json.depthLimit := by
  constructor
  · intro h
    exact exists_readRecord_text_iff.mp (h key.fingerprint _ (read_commit_row hs hws))
  · exact fun hnew => (grows_commit hs hws hnew).legible hm

theorem legible_delete (hws : indexWrites Snapshot.store t key old none fields m = .ok ws)
    (hm : Legible m t) : Legible (m.applyAll (commitWrites t key none ws)) t := by
  intro p text htext
  by_cases hp : p = key.fingerprint
  · have hnone := read_commit_row hs hws
    rw [hp] at htext
    cases hnone.symm.trans htext
  · exact hm p text ((read_commit_row_other hs hws hp).symm.trans htext)

end Commit

/-! ## 3. One row -/

/-- What comes in the place of a row does not nest too deeply. -/
def Shallow (t : String) (m : Content) (R : Rule) : Prop :=
  ∀ {primaryKey key old new}, documentAt m t key = .ok old → R primaryKey key old (some new) →
    (Value.object new).depth ≤ Json.depthLimit

section Rows

variable {t : String} {m m' : Content} {R : Rule} {r : Except Error WriteResult}

/-- **A step on a row leaves the table readable.** -/
theorem RowStep.legible (h : RowStep t R m r m') (hs : OrderedMap.Sorted m)
    (hR : Shallow t m R) (hm : Legible m t) : Legible m' t := by
  cases h with
  | idle | unchanged => exact hm
  | @written l key old new ws hl hold hrule hws =>
    cases new with
    | none => exact legible_delete hs hws hm
    | some new => exact (legible_commit_iff hs hws hm).mpr (hR hold hrule)

/-- **A step that settles its row has written it,** or has found it there. -/
theorem RowStep.settles {w : WriteResult} (h : RowStep t R m (.ok w) m') (hs : OrderedMap.Sorted m)
    (hR : Shallow t m R) (hw : 0 < w.settled) : w.settled = 1 ∧ Grows t m m' ∧
      ∃ l key old new, loadIndexes Snapshot.store t m = .ok l ∧
        R l.primaryKey key old (some new) ∧ Found m' t key := by
  cases h with
  | idle hidle =>
    obtain ⟨-, hinserted, hreplaced, hunchanged⟩ := hidle w rfl
    unfold WriteResult.settled at hw
    omega
  | unchanged hl hold hrule _ =>
    exact ⟨rfl, .refl t m, _, _, _, _, hl, hrule, _, hold⟩
  | @written l key old new ws hl hold hrule hws =>
    cases new with
    | none => cases old <;> exact absurd hw (Nat.lt_irrefl 0)
    | some new =>
      have hnew := hR hold hrule
      refine ⟨by cases old <;> rfl, grows_commit hs hws hnew, l, key, old, _, hl, hrule, ?_⟩
      exact found_of_read (read_commit_row hs hws) hnew

end Rows

section Rules

variable {t : Table Session} {m : Content} {scope : Scope} {op : Operand Session}

theorem Updates.shallow {patch : Value} (h : patch.depth ≤ Json.depthLimit) :
    Shallow t.name m (Updates m scope op patch) := by
  intro primaryKey key old new hold hrule
  cases hrule with
  | merge hfields =>
    cases patch with
    | object fields =>
      cases hfields
      exact Value.depth_merge_le (depth_le_of_documentAt hold) h
    | _ => cases hfields

theorem Replaces.shallow {doc : Value} (h : doc.depth ≤ Json.depthLimit)
    (hkey : ∀ key, Answers (op.resolve scope) m key → key.depth < Json.depthLimit) :
    Shallow t.name m (Replaces m scope op doc) := by
  intro primaryKey key old new hold hrule
  cases hrule with
  | put hfields _ hanswers =>
    cases doc with
    | object fields =>
      cases hfields
      exact Value.depth_keyed_le h primaryKey (Nat.le_of_lt_succ (hkey key hanswers))
    | _ => cases hfields

theorem Inserts.shallow (ht : t.store = Memory.store) (conflict : Conflict) {doc : Fields}
    (h : (Value.object doc).depth ≤ Json.depthLimit) :
    Shallow t.name m (Inserts t m conflict doc) := by
  have hrow : ∀ {primaryKey key row}, Answers (t.keyOf primaryKey doc) m (key, row) →
      (Value.object row).depth ≤ Json.depthLimit := by
    intro primaryKey key row hanswers
    rcases keyOf_answers ht hanswers with ⟨-, -, rfl⟩ | ⟨-, ⟨s, rfl⟩, -, rfl⟩
    · exact h
    · exact Value.depth_keyed_le h primaryKey (by rw [Value.depth]; exact Nat.zero_le _)
  intro primaryKey key old new hold hrule
  cases hrule with
  | fresh hanswers => exact hrow hanswers
  | collide hanswers hnew =>
    cases conflict with
    | error => cases hnew
    | replace =>
      cases hnew
      exact hrow hanswers
    | update =>
      cases hnew
      exact Value.depth_merge_le (depth_le_of_documentAt hold) (hrow hanswers)

end Rules

/-! ## 4. Inserts -/

/-- The key of a document to insert: its own, or a text under which there was nothing. -/
def KeyFor (t : String) (primaryKey : String) (m : Content) (doc : Fields) (key : Value) : Prop :=
  (doc.get? primaryKey = some key ∧ key.isNull = false) ∨
    ((∀ v, doc.get? primaryKey = some v → v.isNull = true) ∧ (∃ s, key = .string s) ∧
      documentAt m t key = .ok none)

/-- What inserting documents comes to: rows are written, and without an error every document has
    one. -/
structure Inserted (t : Table Session) (l : IndexList) (m : Content) (docs : List Fields)
    (total : WriteResult) (r : Except Error WriteResult) (m' : Content) : Prop where
  sorted : OrderedMap.Sorted m'
  indexes : loadIndexes Snapshot.store t.name m' = .ok l
  grows : Grows t.name m m'
  keys : ∀ w, r = .ok w → w.errors = 0 → total.errors = 0 ∧
    w.settled = total.settled + docs.length ∧
    ∃ keys, List.Forall₂ (KeyFor t.name l.primaryKey m) docs keys ∧
      ∀ key ∈ keys, Found m' t.name key

section Inserting

variable {t : Table Session} {m : Content} {l : IndexList}

/-- Inserting a document settles a row, if it succeeds. -/
theorem settled_insertOne {conflict : Conflict} {doc : Fields} {s : Memory} {w : WriteResult}
    (h : ((t.insertOne l conflict doc).on s).1 = .ok w) : w.errors = 0 ∧ w.settled = 1 := by
  unfold Table.insertOne at h
  obtain ⟨⟨key, row⟩, s, -, h⟩ := Session.ok_of_bind h
  obtain ⟨old, s, -, h⟩ := Session.ok_of_bind h
  cases old with
  | none =>
    obtain ⟨-, s, -, h⟩ := Session.ok_of_bind h
    cases h
    exact ⟨rfl, rfl⟩
  | some old =>
    obtain ⟨new, s, -, h⟩ := Session.ok_of_bind h
    unfold Table.writeOver at h
    split at h
    · cases h
      exact ⟨rfl, rfl⟩
    · obtain ⟨-, s, -, h⟩ := Session.ok_of_bind h
      cases h
      exact ⟨rfl, rfl⟩

theorem Inserted.error {docs : List Fields} {total : WriteResult} (hs : OrderedMap.Sorted m)
    (hl : loadIndexes Snapshot.store t.name m = .ok l) {r : Except Error WriteResult}
    (h : ∀ w, r = .ok w → w.errors ≠ 0) : Inserted t l m docs total r m :=
  ⟨hs, hl, .refl _ _, fun w hw hzero => absurd hzero (h w hw)⟩

/-- A reported failure has an error. -/
theorem errors_degrade {e : Error} {w : WriteResult}
    (h : WriteResult.degrade (.error e) = .ok w) : w.errors ≠ 0 := by
  unfold WriteResult.degrade at h
  dsimp only at h
  split at h
  · cases h
    exact Nat.one_ne_zero
  · cases h

variable (ht : t.store = Memory.store)

include ht

theorem KeyFor.of_inserts {conflict : Conflict} {doc : Fields} {primaryKey : String} {key : Value}
    {old : Option Fields} {new : Fields}
    (h : Inserts t m conflict doc primaryKey key old (some new)) :
    KeyFor t.name primaryKey m doc key := by
  have hrow : ∀ {row}, Answers (t.keyOf primaryKey doc) m (key, row) →
      KeyFor t.name primaryKey m doc key := by
    intro row hanswers
    rcases keyOf_answers ht hanswers with ⟨hget, hnull, -⟩ | ⟨hnone, htext, hfree, -⟩
    · exact Or.inl ⟨hget, hnull⟩
    · exact Or.inr ⟨hnone, htext, hfree⟩
  cases h with
  | fresh hanswers => exact hrow hanswers
  | collide hanswers _ => exact hrow hanswers

/-- **Inserting one document.** -/
theorem leads_insertOne_grows (hs : OrderedMap.Sorted m)
    (hl : loadIndexes Snapshot.store t.name m = .ok l) (conflict : Conflict) {doc : Fields}
    (hdoc : (Value.object doc).depth ≤ Json.depthLimit) :
    Leads (Inserted t l m [doc] {}) m (WriteResult.report (t.insertOne l conflict doc)) := by
  have hstep : Leads (fun r m' => RowStep t.name (Inserts t m conflict doc) m r m' ∧
      ∀ w, r = .ok w → w.errors = 0 ∧ w.settled = 1) m (t.insertOne l conflict doc) := by
    intro s hhealthy hm
    obtain ⟨hhealthy', hrow⟩ := leads_insertOne ht hl conflict doc s hhealthy hm
    exact ⟨hhealthy', hrow, fun w hw => settled_insertOne hw⟩
  refine hstep.tryCatch (fun w m' hok => ?_) (fun e m' herror => ?_)
  · obtain ⟨hrow, hsettled⟩ := hok
    obtain ⟨-, hone⟩ := hsettled w rfl
    obtain ⟨-, hgrows, l', key, old, new, hl', hrule, hfound⟩ :=
      hrow.settles hs (Inserts.shallow ht conflict hdoc) (by omega)
    obtain rfl := Except.ok.inj (hl.symm.trans hl')
    refine ⟨hrow.sorted hs, hrow.indexes hs hl, hgrows, fun w' hw' _ => ⟨rfl, ?_, [key], ?_, ?_⟩⟩
    · cases hw'
      exact hone
    · exact .cons (KeyFor.of_inserts ht hrule) .nil
    · exact fun k hk => List.mem_singleton.mp hk ▸ hfound
  · obtain ⟨hrow, -⟩ := herror
    cases hrow with
    | idle => exact Leads.ofOutcome (.error hs hl (fun _ => errors_degrade))

/-- **Inserting documents one after another.** The induction is on the documents, for every content
    and every result so far. -/
theorem leads_reportEach_grows (hs : OrderedMap.Sorted m)
    (hl : loadIndexes Snapshot.store t.name m = .ok l) (conflict : Conflict) (total : WriteResult)
    {docs : List Fields} (hdocs : ∀ doc ∈ docs, (Value.object doc).depth ≤ Json.depthLimit) :
    Leads (Inserted t l m docs total) m
      (WriteResult.reportEach (t.insertOne l conflict) total docs) := by
  induction docs generalizing m total with
  | nil =>
    refine Leads.pure ⟨hs, hl, .refl _ _, fun w hw hzero => ?_⟩
    cases hw
    exact ⟨hzero, rfl, [], .nil, fun key hkey => absurd hkey List.not_mem_nil⟩
  | cons doc docs ih =>
    obtain ⟨hdoc, hrest⟩ := List.forall_mem_cons.mp hdocs
    refine (leads_insertOne_grows ht hs hl conflict hdoc).bind (fun e m' hone => ?_)
      (fun result m₁ hone => ?_)
    · exact ⟨hone.sorted, hone.indexes, hone.grows, fun w hw => by cases hw⟩
    refine (ih hone.sorted hone.indexes (total.merge result) hrest).mono (fun r m' hall => ?_)
    refine ⟨hall.sorted, hall.indexes, hone.grows.trans hall.grows, fun w hw hzero => ?_⟩
    obtain ⟨hmerged, hsettled, keys, hkeys, hfound⟩ := hall.keys w hw hzero
    have herrors : total.errors = 0 ∧ result.errors = 0 := by
      have hsum : total.errors + result.errors = 0 := hmerged
      omega
    obtain ⟨-, hresult, first, hfirst, hfound'⟩ := hone.keys result rfl herrors.2
    refine ⟨herrors.1, ?_, first ++ keys, ?_, fun key hkey => ?_⟩
    · have hsum : (total.merge result).settled = total.settled + result.settled := by
        simp only [WriteResult.settled, WriteResult.merge]
        omega
      rw [hsettled, hsum, hresult, List.length_cons]
      simp [WriteResult.settled]
      omega
    · refine List.rel_append hfirst (hkeys.imp (fun d k hk => ?_))
      exact hk.imp_right fun hnew => ⟨hnew.1, hnew.2.1, hone.grows.free hnew.2.2⟩
    · rcases List.mem_append.mp hkey with hkey | hkey
      · exact hall.grows.found (hfound' key hkey)
      · exact hfound key hkey

end Inserting

/-! ## 5. Tables -/

/-- Running a table with an empty queue succeeds. -/
def Runs (t : Table Session) (s : Memory) : Prop :=
  ∃ rows, (((Handle.ofTable t).run []).on s).1 = .ok rows

/-- Getting a key answers a document. -/
def Finds (t : Table Session) (s : Memory) (key : Value) : Prop :=
  ∃ doc, (((⟨t, .row (.literal key), []⟩ : Handle (Table Session) Session).run []).on s).1
    = .ok (.object doc)

/-- A write of a table. -/
inductive TableWrite where
  /-- Inserts an object or an array of objects. -/
  | insert (docs : Value) (choice : Option Conflict)
  /-- Sets fields of the document under a key. -/
  | update (scope : Scope) (key : Operand Session) (patch : Value)
  /-- Overwrites the document under a key. -/
  | replace (scope : Scope) (key : Operand Session) (doc : Value)

namespace TableWrite

/-- Runs a write on a table. -/
def run (t : Table Session) : TableWrite → Session WriteResult
  | .insert docs choice => t.insert docs choice
  | .update scope key patch => t.update scope key patch
  | .replace scope key doc => t.replace scope key doc

/-- No task in the key changes the store. -/
def Quiet : TableWrite → Prop
  | .insert _ _ => True
  | .update _ key _ | .replace _ key _ => QuietOperand key

/-- What is given does not nest too deeply. The key of a replacement becomes a field of its document,
    so it must nest less deeply. -/
def WithinLimit (m : Content) : TableWrite → Prop
  | .insert docs _ => ∀ all, docs.documents = .ok all →
    ∀ doc ∈ all, (Value.object doc).depth ≤ Json.depthLimit
  | .update _ _ patch => patch.depth ≤ Json.depthLimit
  | .replace scope key doc => doc.depth ≤ Json.depthLimit ∧
    ∀ k, Answers (key.resolve scope) m k → k.depth < Json.depthLimit

/-- The keys are those that a write goes to. An insert has one for every document, in their order. -/
def GoesTo (t : String) (m : Content) (keys : List Value) : TableWrite → Prop
  | .insert docs _ => ∃ all l, docs.documents = .ok all ∧
    loadIndexes Snapshot.store t m = .ok l ∧ List.Forall₂ (KeyFor t l.primaryKey m) all keys
  | .update scope key _ | .replace scope key _ => ∀ k ∈ keys, Answers (key.resolve scope) m k

end TableWrite

/-- What a write leaves: rows that can be read, and without an error a document under every key that
    it has written. -/
structure Leaves (t : String) (m : Content) (w : TableWrite) (r : Except Error WriteResult)
    (m' : Content) : Prop where
  sorted : OrderedMap.Sorted m'
  legible : Legible m' t
  keys : ∀ total, r = .ok total → total.errors = 0 → ∃ keys : List Value,
    keys.length = total.settled ∧ w.GoesTo t m keys ∧ ∀ key ∈ keys, Found m' t key

section Runs

variable {t : Table Session} (ht : t.store = Memory.store) {s : Memory} (hs : Healthy s)

include ht

/-- Running a table with an empty queue answers its rows. -/
theorem reads_run :
    Reads ((Handle.ofTable t).run []) (fun m => Value.array <$> t.snapshot.scan m) := by
  have hrun : (Handle.ofTable t).run [] = (do return .array (← t.scan) : Session Value) := by
    show (do
      let docs ← t.scan
      let out ← runStages [] [] docs
      evaluate [] (.array out) []) = _
    simp only [runStages_nil, pure_bind]
    rfl
  rw [hrun]
  exact (reads_scan ht).map Value.array

include hs

/-- **A table runs exactly when all its rows can be read.** -/
theorem runs_iff (hsorted : OrderedMap.Sorted s.content) :
    Runs t s ↔ Legible s.content t.name := by
  have hscan : t.snapshot.scan s.content
      = (s.content.startingWith (Space.primary t.name).stem).mapM (fun e => readRecord e.2) := by
    unfold Table.scan
    rw [Snapshot.bind_apply]
    exact Snapshot.ofOutcome_apply _ _
  have hanswer := (reads_run ht s hs).1
  dsimp only at hanswer
  unfold Runs
  rw [hanswer, hscan]
  constructor
  · rintro ⟨rows, hrows⟩ p text hread
    obtain ⟨vs, hvs, -⟩ := map_eq_ok.mp hrows
    refine exists_mapM_eq_ok_iff.mp ⟨vs, hvs⟩ ((Space.primary t.name).named p, text) ?_
    exact (Space.mem_entries hsorted).mpr ⟨hread, p, rfl⟩
  · intro hlegible
    obtain ⟨vs, hvs⟩ := exists_mapM_eq_ok_iff.mpr (fun e he => by
      obtain ⟨hread, p, hp⟩ := (Space.mem_entries hsorted).mp he
      exact hlegible p e.2 (hp ▸ hread))
    exact ⟨_, map_eq_ok.mpr ⟨vs, hvs, rfl⟩⟩

/-- A key under which a document is found answers it. -/
theorem Found.finds {key : Value} (h : Found s.content t.name key) : Finds t s key := by
  obtain ⟨doc, hdoc⟩ := h
  refine ⟨doc, (reads_literalRow ht key s hs).1.trans ?_⟩
  show rowValue <$> documentAt s.content t.name key = _
  rw [hdoc]
  rfl

end Runs

section Writes

variable {t : Table Session} {m : Content} {w : TableWrite}

theorem Leaves.error (hs : OrderedMap.Sorted m) (hm : Legible m t.name) (e : Error) :
    Leaves t.name m w (.error e) m :=
  ⟨hs, hm, fun _ h => by cases h⟩

/-- A step on a row settles at most the row of its key. -/
theorem RowStep.leaves {R : Rule} {r : Except Error WriteResult} {m' : Content}
    (h : RowStep t.name R m r m') (hs : OrderedMap.Sorted m) (hR : Shallow t.name m R)
    (hm : Legible m t.name) (hkeys : ∀ {keys : List Value}, (∀ key ∈ keys,
      ∃ primaryKey old new, R primaryKey key old (some new)) → w.GoesTo t.name m keys) :
    Leaves t.name m w r m' := by
  refine ⟨h.sorted hs, h.legible hs hR hm, ?_⟩
  rintro total rfl -
  by_cases hsettled : 0 < total.settled
  · obtain ⟨hone, -, l, key, old, new, -, hrule, hfound⟩ := h.settles hs hR hsettled
    refine ⟨[key], hone.symm, hkeys (fun k hk => ?_), fun k hk => ?_⟩
    · exact List.mem_singleton.mp hk ▸ ⟨_, old, new, hrule⟩
    · exact List.mem_singleton.mp hk ▸ hfound
  · refine ⟨[], (Nat.eq_zero_of_not_pos hsettled).symm, hkeys (fun k hk => ?_), fun k hk => ?_⟩
    · exact absurd hk List.not_mem_nil
    · exact absurd hk List.not_mem_nil

variable (ht : t.store = Memory.store) (hs : OrderedMap.Sorted m) (hm : Legible m t.name)

include ht hs hm

theorem leads_insert_leaves (docs : Value) (choice : Option Conflict)
    (hlimit : (TableWrite.insert docs choice).WithinLimit m) :
    Leads (Leaves t.name m (.insert docs choice)) m (t.insert docs choice) := by
  refine Leads.bind_reads (Reads.ofOutcome _) (.error hs hm) (fun all hall => ?_)
  rw [Snapshot.ofOutcome_apply] at hall
  refine Leads.bind_reads (reads_attempt (reads_indexes ht)) (.error hs hm)
    (fun loaded hloaded => ?_)
  obtain rfl := Except.ok.inj hloaded
  cases hl : loadIndexes Snapshot.store t.name m with
  | error e =>
    refine Leads.ofOutcome ⟨hs, hm, fun total htotal hzero => ?_⟩
    exact absurd hzero (errors_degrade htotal)
  | ok l =>
    have heach := leads_reportEach_grows ht hs hl (t.config.conflictFor choice) {} (hlimit all hall)
    refine heach.mono (fun r m' h =>
      ⟨h.sorted, h.grows.legible hm, fun total htotal hzero => ?_⟩)
    obtain ⟨-, hsettled, keys, hkeys, hfound⟩ := h.keys total htotal hzero
    refine ⟨keys, ?_, ⟨all, l, hall, hl, hkeys⟩, hfound⟩
    rw [hsettled, hkeys.length_eq]
    exact (Nat.zero_add _).symm

/-- **What every write of a table leaves.** -/
theorem TableWrite.leads (w : TableWrite) (hquiet : w.Quiet) (hlimit : w.WithinLimit m) :
    Leads (Leaves t.name m w) m (w.run t) := by
  cases w with
  | insert docs choice => exact leads_insert_leaves ht hs hm docs choice hlimit
  | update scope key patch =>
    refine (leads_update ht hquiet patch).mono (fun r m' hstep => ?_)
    refine hstep.leaves hs (Updates.shallow hlimit) hm (fun hkeys k hk => ?_)
    obtain ⟨_, _, _, hrule⟩ := hkeys k hk
    cases hrule with
    | merge _ _ hkey _ => exact hkey
  | replace scope key doc =>
    refine (leads_replace ht hquiet doc).mono (fun r m' hstep => ?_)
    refine hstep.leaves hs (Replaces.shallow hlimit.1 hlimit.2) hm (fun hkeys k hk => ?_)
    obtain ⟨_, _, _, hrule⟩ := hkeys k hk
    cases hrule with
    | put _ _ hkey _ => exact hkey

end Writes

/-- **A write leaves a table readable,** when nothing that it is given nests too deeply: running the
    table with an empty queue still succeeds, and if the write reports no error, getting a key that
    it has written answers a document. Any other data may be written, and any text may be stored
    elsewhere. -/
theorem writes_leave_table_readable {t : Table Session} (ht : t.store = Memory.store) {s : Memory}
    (hs : Healthy s) (hsorted : OrderedMap.Sorted s.content) (hruns : Runs t s) (w : TableWrite)
    (hquiet : w.Quiet) (hlimit : w.WithinLimit s.content) :
    let outcome := (w.run t).on s
    Runs t outcome.2 ∧ ∀ total, outcome.1 = .ok total → total.errors = 0 →
      ∃ keys : List Value, keys.length = total.settled ∧ w.GoesTo t.name s.content keys ∧
        ∀ key ∈ keys, Finds t outcome.2 key := by
  intro outcome
  have hlegible := (runs_iff ht hs hsorted).mp hruns
  obtain ⟨hs', hleaves⟩ := w.leads ht hsorted hlegible hquiet hlimit s hs rfl
  refine ⟨(runs_iff ht hs' hleaves.sorted).mpr hleaves.legible, fun total htotal hzero => ?_⟩
  obtain ⟨keys, hlength, hgoes, hfound⟩ := hleaves.keys total htotal hzero
  exact ⟨keys, hlength, hgoes, fun key hkey => (hfound key hkey).finds ht hs'⟩

theorem oneThing_runs : Runs (tableOf {} "things") oneThing := by
  have hsome : (((Handle.ofTable (tableOf {} "things")).run []).on oneThing).1.toOption.isSome
      = true := by decide +kernel
  obtain ⟨rows, hrows⟩ := Option.isSome_iff_exists.mp hsome
  exact ⟨rows, ok_of_toOption hrows⟩

/-- A large thing with its key, and a red one without. -/
def newThings : List Fields :=
  [[("id", .count 2), ("size", .ofDouble? (Double.ofText? "3.3e30"))], [("colour", .string "red")]]

theorem depth_newThings : ∀ doc ∈ newThings, (Value.object doc).depth ≤ Json.depthLimit := by
  decide +kernel

/-- Both are inserted, and both are found. -/
theorem two_things_found :
    let things := tableOf {} "things"
    let insert : TableWrite := .insert (.array (newThings.map .object)) none
    let outcome := (insert.run things).on oneThing
    outcome.1.toOption = some { inserted := 2 } ∧ Runs things outcome.2 ∧
      ∃ keys : List Value, keys.length = 2 ∧ insert.GoesTo "things" oneThing.content keys ∧
        ∀ key ∈ keys, Finds things outcome.2 key := by
  intro things insert outcome
  obtain ⟨hs, T, hT⟩ := oneThing_reachable.identified (fun _ => nonNull_string) ⟨rfl⟩ rfl
  have hresult : outcome.1.toOption = some { inserted := 2 } := by decide +kernel
  have hlimit : insert.WithinLimit oneThing.content := by
    intro all hall
    obtain rfl : newThings = all := Except.ok.inj hall
    exact depth_newThings
  obtain ⟨hruns, hkeys⟩ := writes_leave_table_readable (t := things) rfl hs hT.sorted
    oneThing_runs insert trivial hlimit
  exact ⟨hresult, hruns, hkeys _ (ok_of_toOption hresult) rfl⟩

/-- Nested arrays. -/
def nested : Nat → Value
  | 0 => .array []
  | n + 1 => .array [nested n]

/-- A thing that nests too deeply is inserted without an error, and the table cannot be read any
    more. -/
theorem deep_thing_unreadable :
    let things := tableOf {} "things"
    let deep := Value.object [("id", .count 2), ("deep", nested 126)]
    let outcome := (things.insert deep none).on oneThing
    Runs things oneThing ∧ outcome.1.toOption = some { inserted := 1 } ∧
      ¬Runs things outcome.2 := by
  intro things deep outcome
  have hafter : (((Handle.ofTable things).run []).on outcome.2).1.toOption.isSome = false := by
    decide +kernel
  refine ⟨oneThing_runs, by decide +kernel, ?_⟩
  rintro ⟨rows, hrows⟩
  rw [hrows] at hafter
  cases hafter

end KeyValue

end QueryAlgebra
