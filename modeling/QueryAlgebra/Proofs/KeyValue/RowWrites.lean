import QueryAlgebra.Proofs.KeyValue.OwnKeys
import QueryAlgebra.Proofs.Value.Agreement

/-!
# Written rows are read back

After a write of one document that is answered with a row inserted, replaced or unchanged, the row
reads as the document that was meant to be there, and every other row reads as before: no update is
lost. The rows need only be identified.

A row that is answered as unchanged was not written, so what it holds is what it held. This is the
same data as long as no two numbers in question are one double and not one number
(`Value.NumbersApart`); where they are, the update is lost (`neighbour_lost`).
-/

namespace QueryAlgebra

theorem WriteResult.empty_merge (r : WriteResult) : ({} : WriteResult).merge r = r := by
  simp [merge]

namespace KeyValue

/-! ## 1. Writes of one document -/

/-- A write of one document. -/
inductive RowWrite where
  /-- Sets fields of the document under a key. -/
  | update (key : Value) (patch : Fields)
  /-- Overwrites the document under a key. -/
  | replace (key : Value) (doc : Fields)
  /-- Inserts a document. -/
  | insert (doc : Fields) (choice : Option Conflict)

namespace RowWrite

/-- Runs a write on a table. -/
def run (t : Table Session) : RowWrite → Session WriteResult
  | .update key patch => t.update [] (.literal key) (.object patch)
  | .replace key doc => t.replace [] (.literal key) (.object doc)
  | .insert doc choice => t.insert (.object doc) choice

/-- The write is of the row of a key. The key of an insert is the document's own, else one under
which there was nothing. -/
def HasKey (primaryKey : String) (key : Value) (old : Option Fields) : RowWrite → Prop
  | .update k _ | .replace k _ => k = key
  | .insert doc _ => (doc.get? primaryKey = some key ∧ key.isNull = false) ∨
    ((∀ v, doc.get? primaryKey = some v → v.isNull = true) ∧ old = none)

/-- The document that a write is meant to leave under a key. -/
def intended (config : Config) (primaryKey : String) (key : Value) (old : Option Fields) :
    RowWrite → Fields
  | .update _ patch => (old.getD []).merge patch
  | .replace _ doc => doc.keyed primaryKey key
  | .insert doc choice => match config.conflictFor choice with
    | .update => (old.getD []).merge (doc.keyed primaryKey key)
    | .error | .replace => doc.keyed primaryKey key

/-- What is written can be read again. -/
def Storable : RowWrite → Prop
  | .update _ patch => patch.Storable
  | .replace key doc => key.Storable ∧ doc.Storable
  | .insert doc _ => doc.Storable

/-- What a write does to the row of a key. -/
def rule (t : Table Session) (m : Content) : RowWrite → Rule
  | .update key patch => Updates m [] (.literal key) (.object patch)
  | .replace key doc => Replaces m [] (.literal key) (.object doc)
  | .insert doc choice => Inserts t m (t.config.conflictFor choice) doc

end RowWrite

section Steps

variable {t : Table Session} (ht : t.store = Memory.store) {m : Content}

include ht

/-- **An insert of one document is a step on its row.** -/
theorem leads_insert (doc : Fields) (choice : Option Conflict) :
    Leads (RowStep t.name (Inserts t m (t.config.conflictFor choice) doc) m) m
      (t.insert (.object doc) choice) := by
  refine Leads.bind_reads (Reads.ofOutcome _) RowStep.error (fun docs hdocs => ?_)
  obtain rfl : [doc] = docs := Except.ok.inj hdocs
  refine Leads.bind_reads (reads_attempt (reads_indexes ht)) RowStep.error
    (fun loaded hloaded => ?_)
  obtain rfl := Except.ok.inj hloaded
  cases hl : loadIndexes Snapshot.store t.name m with
  | error e => exact Leads.ofOutcome (.degraded e)
  | ok l =>
    refine (leads_insertOne ht hl _ doc).report.bind (fun _ _ herror => herror) (fun r m' hstep => ?_)
    refine Leads.pure ?_
    rw [WriteResult.empty_merge]
    exact hstep

/-- **Every write of one document is a step on a row.** -/
theorem RowWrite.leads (w : RowWrite) : Leads (RowStep t.name (w.rule t m) m) m (w.run t) := by
  cases w with
  | update key patch =>
    have hquiet : QuietOperand (.literal key) := trivial
    exact leads_update ht hquiet _
  | replace key doc =>
    have hquiet : QuietOperand (.literal key) := trivial
    exact leads_replace ht hquiet _
  | insert doc choice => exact leads_insert ht doc choice

/-- **The row that an insert is to write is its document with the key.** -/
theorem insert_row {doc : Fields} (hdoc : doc.Storable) (choice : Option Conflict)
    {primaryKey : String} {key : Value} {row : Fields} {old : Option Fields}
    (hanswers : Answers (t.keyOf primaryKey doc) m (key, row))
    (hold : documentAt m t.name key = .ok old) :
    (RowWrite.insert doc choice).HasKey primaryKey key old ∧ row.Storable ∧
      (doc.keyed primaryKey key).Storable ∧
        ∀ name, row.get? name = (doc.keyed primaryKey key).get? name := by
  rcases keyOf_answers ht hanswers with ⟨hget, hnull, rfl⟩ | ⟨hnone, ⟨s, rfl⟩, hfree, rfl⟩
  · have hkeyed := hdoc.keyed primaryKey (hdoc.get? hget)
    refine ⟨Or.inl ⟨hget, hnull⟩, hdoc, hkeyed, fun name => ?_⟩
    by_cases hname : name = primaryKey
    · rw [hname, Fields.get?_keyed, hget]
    · rw [Fields.get?_keyed_of_ne _ _ hname]
  · have hnothing : old = none := Except.ok.inj (hold.symm.trans hfree)
    have hkeyed := hdoc.keyed primaryKey (Value.storable_string s)
    exact ⟨Or.inr ⟨hnone, hnothing⟩, hkeyed, hkeyed, fun _ => rfl⟩

/-- **What a write puts under a key is what it is meant to leave there,** field by field. -/
theorem RowWrite.intends {w : RowWrite} (hw : w.Storable) {primaryKey : String} {key : Value}
    {old : Option Fields} {new : Fields} (hrule : w.rule t m primaryKey key old (some new))
    (hold : documentAt m t.name key = .ok old) (hstorable : ∀ doc, old = some doc → doc.Storable) :
    w.HasKey primaryKey key old ∧ new.Storable ∧
      ∀ name, new.get? name = (w.intended t.config primaryKey key old).get? name := by
  cases w with
  | update k patch =>
    cases hrule with
    | merge hfields herase hkey hcheck =>
      cases hfields
      exact ⟨hkey.of_pure, (hstorable _ rfl).merge hw, fun _ => rfl⟩
  | replace k doc =>
    cases hrule with
    | put hfields herase hkey hcheck =>
      cases hfields
      obtain rfl := hkey.of_pure
      exact ⟨rfl, hw.2.keyed primaryKey hw.1, fun _ => rfl⟩
  | insert doc choice =>
    cases hrule with
    | fresh hanswers =>
      obtain ⟨hkey, hrow, hkeyed, hget⟩ := insert_row ht hw choice hanswers hold
      refine ⟨hkey, hrow, fun name => ?_⟩
      simp only [RowWrite.intended]
      cases t.config.conflictFor choice with
      | error | replace => exact hget name
      | update =>
        rw [Fields.get?_merge _ hkeyed.nodup, hget name]
        exact Option.or_none.symm
    | collide hanswers hnew =>
      obtain ⟨hkey, hrow, hkeyed, hget⟩ := insert_row ht hw choice hanswers hold
      simp only [RowWrite.intended]
      cases hconflict : t.config.conflictFor choice with
      | error =>
        rw [hconflict] at hnew
        cases hnew
      | replace =>
        rw [hconflict] at hnew
        cases hnew
        exact ⟨hkey, hrow, hget⟩
      | update =>
        rw [hconflict] at hnew
        cases hnew
        refine ⟨hkey, (hstorable _ rfl).merge hrow, fun name => ?_⟩
        rw [Option.getD_some, Fields.get?_merge _ hrow.nodup, Fields.get?_merge _ hkeyed.nodup,
          hget name]

end Steps

/-! ## 2. What rows read as -/

/-- A row as a value; where there is none, null. -/
def rowValue (row : Option Fields) : Value := (row.map Value.object).getD .null

/-- Reading the row of a key answers its document. -/
theorem reads_literalRow {t : Table Session} (ht : t.store = Memory.store) (key : Value) :
    Reads (t.readRow [] (.literal key) []) (fun m => rowValue <$> documentAt m t.name key) :=
  (reads_document ht key).map rowValue

/-- What reading the row of a key answers. -/
def rowAt (config : Config) (s : Memory) (table : String) (key : Value) : Except Error Value :=
  (((tableOf config table).readRow [] (.literal key) []).on s).1

theorem rowAt_eq (config : Config) {s : Memory} (hs : Healthy s) (table : String) (key : Value) :
    rowAt config s table key = rowValue <$> documentAt s.content table key :=
  (reads_literalRow (t := tableOf config table) rfl key s hs).1

theorem documentAt_congr {m m' : Content} {t : String} {key : Value}
    (h : m'.read ((Space.primary t).key key) = m.read ((Space.primary t).key key)) :
    documentAt m' t key = documentAt m t key := by
  unfold documentAt
  rw [h]

/-- What a counted step on the row of a key has left. -/
inductive Landed (t : String) (m m' : Content) (key : Value) (old : Option Fields) (new : Fields)
    (r : WriteResult) : Prop
  /-- The row was written, and no other. -/
  | written (hcount : r.unchanged = 0)
    (hrow : new.Storable → documentAt m' t key = .ok (some new))
    (hothers : ∀ t' other, Plain t' → (t' = t → other.fingerprint ≠ key.fingerprint) →
      documentAt m' t' other = documentAt m t' other)
  /-- The row was taken for the one that was to be written. -/
  | same {doc : Fields} (hcount : r.unchanged = 1) (hcontent : m' = m) (hold : old = some doc)
    (hsame : (Value.object doc).sameDocument (.object new) = true)

section Lands

variable {P : String → String → Prop} {m m' : Content} {T : Tables} {t : String}

/-- **A step that counts its row has written it, or has taken it for what was to be written.** -/
theorem RowStep.lands (h : Identified P m T) {R : Rule} {r : WriteResult}
    (hstep : RowStep t R m (.ok r) m') (hcount : 0 < r.inserted + r.replaced + r.unchanged) :
    ∃ key new, R (T.lists t).primaryKey key (T.rows t key.fingerprint) (some new) ∧
      Landed t m m' key (T.rows t key.fingerprint) new r := by
  cases hstep with
  | idle hidle =>
    obtain ⟨-, hinserted, hreplaced, hunchanged⟩ := hidle r rfl
    omega
  | @unchanged l key old new hl hold hrule hsame =>
    obtain ⟨hmem, rfl⟩ := indexes_answer h hl
    rw [document_answer h hmem] at hold
    have hrow := Except.ok.inj hold
    exact ⟨key, new, hrow ▸ hrule, .same rfl rfl hrow hsame⟩
  | @written l key old new ws hl hold hrule hws =>
    obtain ⟨hmem, rfl⟩ := indexes_answer h hl
    rw [document_answer h hmem] at hold
    obtain rfl := Except.ok.inj hold
    have hplain := h.plain t hmem
    have hread := fun {t'} (ht' : Plain t') p =>
      read_row h.sorted hws hplain (h.table t hmem).fields ht' p
    cases new with
    | none =>
      cases hrow : T.rows t key.fingerprint with
      | none =>
        rw [hrow] at hcount
        exact absurd hcount (Nat.lt_irrefl 0)
      | some doc =>
        rw [hrow] at hcount
        exact absurd hcount (Nat.lt_irrefl 0)
    | some new =>
      refine ⟨key, new, hrule, .written ?_ (fun hnew => ?_) (fun t' other ht' hother => ?_)⟩
      · cases T.rows t key.fingerprint <;> rfl
      · refine documentAt_of_read (fun _ heq => Option.some.inj heq ▸ hnew) ?_
        exact (hread hplain _).trans (if_pos ⟨rfl, rfl⟩)
      · refine documentAt_congr ((hread ht' _).trans (if_neg ?_))
        rintro ⟨rfl, heq⟩
        exact hother rfl heq

end Lands

/-! ## 3. No update is lost -/

/-- **After a write that counts its row, the row reads as it was meant to, and the others read as
before.** -/
theorem written_rows_read_back (config : Config) {P : String → String → Prop} {s : Memory}
    (hs : Healthy s) {T : Tables} (hT : Identified P s.content T) {table : String}
    (ht : table ∈ T.names) (w : RowWrite) (hw : w.Storable) {r : WriteResult}
    (hr : ((w.run (tableOf config table)).on s).1 = .ok r)
    (hcount : 0 < r.inserted + r.replaced + r.unchanged) :
    let s' := ((w.run (tableOf config table)).on s).2
    let primaryKey := (T.lists table).primaryKey
    ∃ key old, w.HasKey primaryKey key old ∧ rowAt config s table key = .ok (rowValue old) ∧
      (∃ found, rowAt config s' table key = .ok (.object found) ∧
        ((r.unchanged = 0 ∨ ∀ doc, old = some doc → Value.NumbersApart (.object doc)
            (.object (w.intended config primaryKey key old))) →
          Fields.SameData found (w.intended config primaryKey key old))) ∧
      ∀ table' other, Plain table' → (table' = table → other.fingerprint ≠ key.fingerprint) →
        rowAt config s' table' other = rowAt config s table' other := by
  intro s' primaryKey
  obtain ⟨hs', hstep⟩ := w.leads (t := tableOf config table) rfl s hs rfl
  rw [hr] at hstep
  obtain ⟨key, new, hrule, hlanded⟩ := hstep.lands hT hcount
  have hbefore : documentAt s.content table key = .ok (T.rows table key.fingerprint) :=
    document_answer hT ht key
  have hrows : ∀ doc, T.rows table key.fingerprint = some doc → doc.Storable :=
    fun doc hdoc => ((hT.table table ht).row _ doc hdoc).storable
  obtain ⟨hkey, hnew, hget⟩ := w.intends (t := tableOf config table) rfl hw hrule hbefore hrows
  have hread : rowAt config s table key = .ok (rowValue (T.rows table key.fingerprint)) := by
    rw [rowAt_eq config hs, hbefore]
    rfl
  cases hlanded with
  | written _ hrow hothers =>
    have hafter : documentAt s'.content table key = .ok (some new) := hrow hnew
    refine ⟨key, _, hkey, hread, ⟨new, ?_, fun _ => .of_get? hget⟩,
      fun table' other hplain hother => ?_⟩
    · rw [rowAt_eq config hs', hafter]
      rfl
    · rw [rowAt_eq config hs', rowAt_eq config hs, hothers table' other hplain hother]
  | @same doc hunchanged hcontent hold hsame =>
    have hkept : ∀ table' other, rowAt config s' table' other = rowAt config s table' other := by
      intro table' other
      rw [rowAt_eq config hs', rowAt_eq config hs, hcontent]
    have hdoc := hrows doc hold
    refine ⟨key, _, hkey, hread, ⟨doc, ?_, fun hexact => ?_⟩,
      fun table' other _ _ => hkept table' other⟩
    · rw [hkept, hread]
      exact congrArg (fun row => Except.ok (rowValue row)) hold
    · have hnumbers := (hexact.resolve_left (by omega)) doc hold
      have hsub : ∀ n, Value.HasNumber n (.object new) → Value.HasNumber n
          (.object (w.intended config primaryKey key (T.rows table key.fingerprint))) :=
        fun n hn => hn.of_get? hnew.nodup hget
      exact (sameData_of_sameDocument hdoc.proper hnew.proper
        (fun m n hm hn => hnumbers m n hm (hsub n hn)) hsame).congr_right hget

/-- The one thing is enlarged, and reads as the larger one. -/
theorem enlarged_read_back :
    let w : RowWrite := .update (.count 1) [("size", .string "big")]
    let s' := ((w.run (tableOf {} "things")).on oneThing).2
    ∃ key old, w.HasKey "id" key old ∧ rowAt {} oneThing "things" key = .ok (rowValue old) ∧
      (∃ found, rowAt {} s' "things" key = .ok (.object found) ∧
        Fields.SameData found (w.intended {} "id" key old)) ∧
      ∀ table' other, Plain table' → (table' = "things" → other.fingerprint ≠ key.fingerprint) →
        rowAt {} s' table' other = rowAt {} oneThing table' other := by
  intro w s'
  obtain ⟨hs, T, hT⟩ := oneThing_reachable.identified (fun _ => nonNull_string) ⟨rfl⟩ rfl
  have hlist : ((tableOf {} "things").indexes.on oneThing).1.toOption.map IndexList.primaryKey
      = some "id" := by decide +kernel
  have hresult : ((w.run (tableOf {} "things")).on oneThing).1.toOption
      = some { replaced := 1 } := by decide +kernel
  rw [(reads_indexes (t := tableOf {} "things") rfl oneThing hs).1] at hlist
  obtain ⟨l, hl, hprimary⟩ := Option.map_eq_some_iff.mp hlist
  obtain ⟨ht, rfl⟩ := indexes_answer hT (ok_of_toOption hl)
  have hsize : ∀ f ∈ [("size", Value.string "big")], f.2 = .string "big" := by simp
  have hw : w.Storable :=
    .object (by simp) (fun f hf => hsize f hf ▸ Value.storable_string "big")
  obtain ⟨key, old, hkey, hread, ⟨found, hfound, hsame⟩, hothers⟩ :=
    written_rows_read_back {} hs hT ht w hw (ok_of_toOption hresult) (by decide)
  rw [hprimary] at hkey hsame
  exact ⟨key, old, hkey, hread, ⟨found, hfound, hsame (Or.inl rfl)⟩, hothers⟩

/-- A thing of a size. -/
def sized (i : Int) (h : -0x8000000000000000 ≤ i ∧ i < 0x10000000000000000) : Fields :=
  [("id", .count 1), ("size", .number (.int i h))]

/-- The size of a row, if it is a number. -/
def sizeOfRow : Value → Option Number
  | .object fields => match Fields.get? fields "size" with
    | some (.number n) => some n
    | _ => none
  | _ => none

theorem edge_fits :
    -0x8000000000000000 ≤ (9007199254740992 : Int) ∧
      (9007199254740992 : Int) < 0x10000000000000000 := by decide

/-- A thing whose size is at the edge of what a double holds. -/
def edge : Memory :=
  runAll {} {} [createThings, .insert "things" (.object (sized 9007199254740992 edge_fits)) none]

/-- The next size is the same double, so the update is taken for none, and lost. -/
theorem neighbour_lost :
    let w : RowWrite := .update (.count 1) [("size", .number (.int 9007199254740993 (by decide)))]
    let outcome := (w.run (tableOf {} "things")).on edge
    outcome.1.toOption = some { unchanged := 1 } ∧
      ¬∃ found, rowAt {} outcome.2 "things" (.count 1) = .ok (.object found) ∧
        Fields.SameData found (w.intended {} "id" (.count 1)
          (some (sized 9007199254740992 (by decide)))) := by
  intro w outcome
  refine ⟨by decide +kernel, ?_⟩
  rintro ⟨found, hfound, hsame⟩
  have hsize : (rowAt {} outcome.2 "things" (.count 1)).toOption.bind sizeOfRow
      = some (.int 9007199254740992 (by decide)) := by decide +kernel
  rw [hfound] at hsize
  change sizeOfRow (.object found) = _ at hsize
  have hagree := hsame "size"
  unfold sizeOfRow at hsize
  unfold Fields.valueOf at hagree
  cases hget : Fields.get? found "size" with
  | none => simp [hget] at hsize
  | some v =>
    cases v with
    | number n =>
      obtain rfl : n = .int 9007199254740992 (by decide) := by simpa [hget] using hsize
      rw [hget] at hagree
      cases hagree with
      | number hexact => exact absurd hexact (by decide +kernel)
    | _ => simp [hget] at hsize

end KeyValue

end QueryAlgebra
