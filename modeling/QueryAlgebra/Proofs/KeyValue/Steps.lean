import QueryAlgebra.Proofs.KeyValue.Queries

/-!
# What an operation on a row can do to a store

In a session without faults an operation on one row does one of three things: it writes nothing and
says so, it finds the data that it was to write, or it writes the row and its index entries in one
batch (`RowStep`). Which document may come in the place of which is the operation's own `Rule`. No
step on a row touches an index list (`RowStep.indexes`).
-/

namespace QueryAlgebra

/-- A result that counts no row as written, nor as holding already what was to be written. -/
def WriteResult.Idle (r : WriteResult) : Prop :=
  r.deleted = 0 ∧ r.inserted = 0 ∧ r.replaced = 0 ∧ r.unchanged = 0

/-- The result of a row that was written, by the documents before and after. -/
def WriteResult.ofRow : Option Fields → Option Fields → WriteResult
  | none, none => { skipped := 1 }
  | none, some _ => { inserted := 1 }
  | some _, none => { deleted := 1 }
  | some _, some _ => { replaced := 1 }

namespace KeyValue

/-! ## 1. One row -/

/-- Which document may come in the place of which: a relation of the name of the primary key, the
    key, the document before and the document after. -/
abbrev Rule := String → Value → Option Fields → Option Fields → Prop

/-- The document under a key, as it is read. -/
def documentAt (m : Content) (t : String) (key : Value) : Except Error (Option Fields) :=
  match m.read ((Space.primary t).key key) with
  | none => .ok none
  | some text => some <$> readDocument text

/-- A document that is stored as its text is read. -/
theorem documentAt_of_read {m : Content} {t : String} {key : Value} {doc : Option Fields}
    (hdoc : ∀ fields, doc = some fields → fields.Storable)
    (h : m.read ((Space.primary t).key key) = doc.map (fun fields => (Value.object fields).json)) :
    documentAt m t key = .ok doc := by
  unfold documentAt
  rw [h]
  cases doc with
  | none => rfl
  | some fields =>
    show some <$> readDocument (Value.object fields).json = .ok (some fields)
    rw [readDocument_json (hdoc fields rfl)]
    rfl

/-- **What an operation on one row comes to:** its answer, and the content that it leaves. -/
inductive RowStep (t : String) (R : Rule) (m : Content) :
    Except Error WriteResult → Content → Prop
  /-- Nothing is written, and no row is counted. -/
  | idle {r : Except Error WriteResult} (h : ∀ w, r = .ok w → w.Idle) : RowStep t R m r m
  /-- The row holds the data that was to be written. -/
  | unchanged {l : IndexList} {key : Value} {old new : Fields}
    (hl : loadIndexes Snapshot.store t m = .ok l) (hold : documentAt m t key = .ok (some old))
    (hrule : R l.primaryKey key (some old) (some new))
    (hsame : (Value.object old).sameDocument (.object new) = true) :
    RowStep t R m (.ok { unchanged := 1 }) m
  /-- The row is written, with its index entries. -/
  | written {l : IndexList} {key : Value} {old new : Option Fields} {ws : List Write}
    (hl : loadIndexes Snapshot.store t m = .ok l) (hold : documentAt m t key = .ok old)
    (hrule : R l.primaryKey key old new)
    (hws : indexWrites Snapshot.store t key old new l.secondary m = .ok ws) :
    RowStep t R m (.ok (.ofRow old new)) (m.applyAll (ws ++ [documentWrite t key new]))

/-- What an attempt answers, failures included. -/
theorem reads_attempt {α : Type} {x : Session α} {f : Snapshot α} (hx : Reads x f) :
    Reads (tryCatch (do return .ok (← x)) (fun e => pure (.error e))) (fun m => .ok (f m)) := by
  intro s hs
  obtain ⟨hanswer, hkept⟩ := hx s hs
  have hattempt := Stateful.on_attempt x s
  refine ⟨(congrArg Prod.fst hattempt).trans (congrArg Except.ok hanswer), ?_⟩
  exact (congrArg Prod.snd hattempt).symm ▸ hkept

section Rows

variable {t : Table Session} (ht : t.store = Memory.store) {m : Content} {R : Rule}

theorem fetch_snapshot (key : Value) : t.snapshot.fetch key m = documentAt m t.name key := by
  unfold Table.fetch documentAt
  rw [Snapshot.bind_apply]
  show (Except.ok (m.read ((Space.primary t.name).key key)) >>= _) = _
  cases m.read ((Space.primary t.name).key key) with
  | none => rfl
  | some text =>
    show ((ofOutcome (readDocument text) : Snapshot Fields) m >>= _) = _
    rw [Snapshot.ofOutcome_apply]
    dsimp only
    cases readDocument text <;> rfl

theorem RowStep.error (e : Error) : RowStep t.name R m (.error e) m := .idle (fun _ h => by cases h)

theorem RowStep.skipped : RowStep t.name R m (.ok { skipped := 1 }) m :=
  .idle (fun _ h => Except.ok.inj h ▸ ⟨rfl, rfl, rfl, rfl⟩)

theorem Keeps.report {Q : Content → Prop} {x : Session WriteResult} (h : Keeps Q m x) :
    Keeps Q m (WriteResult.report x) :=
  h.tryCatch (fun _ _ hm => Keeps.of_inert (Inert.ofOutcome _) hm)

/-- A failure counts no row, whether it is reported or raised. -/
theorem RowStep.degraded (e : Error) :
    RowStep t.name R m (WriteResult.degrade (.error e)) m := by
  refine .idle (fun w hw => ?_)
  unfold WriteResult.degrade at hw
  dsimp only at hw
  split at hw
  · exact Except.ok.inj hw ▸ ⟨rfl, rfl, rfl, rfl⟩
  · cases hw

/-- **A failure that is reported has changed nothing.** -/
theorem Leads.report {x : Session WriteResult} (h : Leads (RowStep t.name R m) m x) :
    Leads (RowStep t.name R m) m (WriteResult.report x) := by
  refine h.tryCatch (fun _ _ hok => hok) (fun e m' hstep => ?_)
  cases hstep with
  | idle _ => exact Leads.ofOutcome (.degraded e)

include ht

theorem reads_document (key : Value) : Reads (t.fetch key) (fun m => documentAt m t.name key) := by
  intro s hs
  obtain ⟨hanswer, hkept⟩ := reads_fetch ht key s hs
  exact ⟨hanswer.trans (fetch_snapshot key), hkept⟩

variable {l : IndexList} (hl : loadIndexes Snapshot.store t.name m = .ok l) {key : Value}

include hl

/-- **A commit writes a row with its index entries, or it fails and writes nothing.** -/
theorem leads_commit {old new : Option Fields} (hold : documentAt m t.name key = .ok old)
    (hrule : R l.primaryKey key old new) :
    Leads (RowStep t.name R m) m (do
      commit t.store t.name l key old new
      return .ofRow old new) := by
  have hbatch : Leads (fun r m' => (∃ e, r = .error e ∧ m' = m) ∨ ∃ ws,
      r = .ok () ∧ indexWrites Snapshot.store t.name key old new l.secondary m = .ok ws
        ∧ m' = m.applyAll (ws ++ [documentWrite t.name key new])) m
      (commit t.store t.name l key old new) := by
    unfold commit
    rw [ht]
    refine Leads.bind_reads (reads_indexWrites _ _ _ _ _) (fun e => Or.inl ⟨e, rfl, rfl⟩)
      (fun ws hws => Leads.batch (Or.inr ⟨ws, rfl, hws, rfl⟩))
  refine hbatch.bind (fun e m' herror => ?_) (fun _ m' hok => ?_)
  · rcases herror with ⟨-, -, rfl⟩ | ⟨ws, hr, -⟩
    · exact .error e
    · cases hr
  · rcases hok with ⟨e, hr, -⟩ | ⟨ws, -, hws, rfl⟩
    · cases hr
    · exact Leads.pure (.written hl hold hrule hws)

/-- Writing a document over another. -/
theorem leads_writeOver {old new : Fields} (hold : documentAt m t.name key = .ok (some old))
    (hrule : R l.primaryKey key (some old) (some new)) :
    Leads (RowStep t.name R m) m (t.writeOver l key old new) := by
  unfold Table.writeOver
  split
  · next hsame => exact Leads.pure (.unchanged hl hold hrule hsame)
  · exact leads_commit ht hl hold hrule

theorem leads_deleteKey (hrule : ∀ old, R l.primaryKey key (some old) none) :
    Leads (RowStep t.name R m) m (t.deleteKey l key) := by
  refine Leads.bind_reads (reads_document ht key) RowStep.error (fun old hold => ?_)
  cases old with
  | none => exact Leads.pure .skipped
  | some old => exact leads_commit ht hl hold (hrule old)

end Rows

/-! ### Index lists -/

theorem loadIndexes_congr {m m' : Content} {t : String}
    (h : m'.read ((Space.records t).named indexListName)
      = m.read ((Space.records t).named indexListName)) :
    loadIndexes Snapshot.store t m' = loadIndexes Snapshot.store t m := by
  unfold loadIndexes
  rw [Snapshot.bind_apply, Snapshot.bind_apply, Snapshot.get_apply, Snapshot.get_apply, h, ok_bind,
    ok_bind]
  cases m.read ((Space.records t).named indexListName) with
  | none => rfl
  | some text => exact (Snapshot.ofOutcome_apply m' _).trans (Snapshot.ofOutcome_apply m _).symm

/-- Writing a row leaves every index list as it is. -/
theorem loadIndexes_row {m : Content} {t : String} {key : Value} {old new : Option Fields}
    (hs : OrderedMap.Sorted m) {fields : List String} {ws : List Write}
    (hws : indexWrites Snapshot.store t key old new fields m = .ok ws) (t' : String) :
    loadIndexes Snapshot.store t' (m.applyAll (ws ++ [documentWrite t key new]))
      = loadIndexes Snapshot.store t' m := loadIndexes_congr (read_row_record hs hws t')

section Kept

variable {t : String} {R : Rule} {m m' : Content} {r : Except Error WriteResult} {l : IndexList}

theorem RowStep.sorted (h : RowStep t R m r m') (hs : OrderedMap.Sorted m) :
    OrderedMap.Sorted m' := by
  cases h with
  | idle | unchanged => exact hs
  | written _ _ _ _ => exact Content.sorted_applyAll hs _

/-- A step on a row leaves the index list. -/
theorem RowStep.indexes (h : RowStep t R m r m') (hs : OrderedMap.Sorted m)
    (hl : loadIndexes Snapshot.store t m = .ok l) :
    loadIndexes Snapshot.store t m' = .ok l := by
  cases h with
  | idle | unchanged => exact hl
  | written _ _ _ hws => exact (loadIndexes_row hs hws t).trans hl

end Kept

/-! ## 2. Operations on a row -/

/-- What a deletion does to a row. -/
inductive Deletes : Rule
  | delete (primaryKey : String) (key : Value) (old : Fields) :
    Deletes primaryKey key (some old) none

/-- What an update does to the row of a key. A patch in which nothing is true deletes the row. -/
inductive Updates (m : Content) (scope : Scope) (op : Operand Session) (patch : Value) : Rule
  | delete {primaryKey : String} {key : Value} {old fields : Fields}
    (hfields : patch.singleDocument "update" = .ok fields) (herase : fields.isErasure = true)
    (hkey : Answers (op.resolve scope) m key) :
    Updates m scope op patch primaryKey key (some old) none
  | merge {primaryKey : String} {key : Value} {old fields : Fields}
    (hfields : patch.singleDocument "update" = .ok fields) (herase : fields.isErasure = false)
    (hkey : Answers (op.resolve scope) m key) (hcheck : fields.checkKey primaryKey key = .ok ()) :
    Updates m scope op patch primaryKey key (some old) (some (old.merge fields))

/-- What a replacement does to the row of a key, whether it exists or not. -/
inductive Replaces (m : Content) (scope : Scope) (op : Operand Session) (doc : Value) : Rule
  | delete {primaryKey : String} {key : Value} {old fields : Fields}
    (hfields : doc.singleDocument "replace" = .ok fields) (herase : fields.isErasure = true)
    (hkey : Answers (op.resolve scope) m key) :
    Replaces m scope op doc primaryKey key (some old) none
  | put {primaryKey : String} {key : Value} {old : Option Fields} {fields : Fields}
    (hfields : doc.singleDocument "replace" = .ok fields) (herase : fields.isErasure = false)
    (hkey : Answers (op.resolve scope) m key) (hcheck : fields.checkKey primaryKey key = .ok ()) :
    Replaces m scope op doc primaryKey key old (some (fields.keyed primaryKey key))

/-- What an insert of one document does to the row of its key, which may be a fresh one. -/
inductive Inserts (t : Table Session) (m : Content) (conflict : Conflict) (doc : Fields) : Rule
  | fresh {primaryKey : String} {key : Value} {row : Fields}
    (hrow : Answers (t.keyOf primaryKey doc) m (key, row)) :
    Inserts t m conflict doc primaryKey key none (some row)
  | collide {primaryKey : String} {key : Value} {row old new : Fields}
    (hrow : Answers (t.keyOf primaryKey doc) m (key, row))
    (hnew : Table.overwritten key old row conflict = .ok new) :
    Inserts t m conflict doc primaryKey key (some old) (some new)

section Operations

variable {t : Table Session} (ht : t.store = Memory.store) {m : Content} {scope : Scope}
  {op : Operand Session}

section Targets

include ht

theorem inert_rowTarget (hop : QuietOperand op) : Inert (t.rowTarget scope op) :=
  (inert_resolve op hop scope).bind
    (fun _ => (reads_indexes ht).inert.bind (fun _ => Inert.pure _))

theorem rowTarget_answers (hop : QuietOperand op) {l : IndexList} {key : Value}
    (h : Answers (t.rowTarget scope op) m (l, key)) :
    loadIndexes Snapshot.store t.name m = .ok l ∧ Answers (op.resolve scope) m key := by
  obtain ⟨k, hk, h⟩ := h.of_bind (inert_resolve op hop scope)
  obtain ⟨l', hl, h⟩ := h.of_bind (reads_indexes ht).inert
  cases h.of_pure
  exact ⟨(reads_indexes ht).of_answers hl, hk⟩

theorem inert_freshKey (attempts : Nat) : Inert (t.freshKey attempts) := by
  induction attempts with
  | zero => exact Inert.throw _
  | succ n ih =>
    unfold Table.freshKey
    rw [ht]
    refine inert_freshId.bind (fun id => ?_)
    refine (reads_fetch ht _).inert.bind (fun doc => ?_)
    cases doc with
    | none => exact Inert.pure _
    | some doc => exact ih

/-- A fresh key is a text under which no document stands. -/
theorem freshKey_answers {attempts : Nat} {key : Value} (h : Answers (t.freshKey attempts) m key) :
    (∃ s, key = .string s) ∧ documentAt m t.name key = .ok none := by
  induction attempts with
  | zero =>
    obtain ⟨s, -, -, hon⟩ := h
    cases hon
  | succ n ih =>
    unfold Table.freshKey at h
    rw [ht] at h
    obtain ⟨id, -, h⟩ := h.of_bind inert_freshId
    obtain ⟨doc, hdoc, h⟩ := h.of_bind (reads_fetch ht _).inert
    cases doc with
    | none => exact ⟨⟨id, h.of_pure.symm⟩, h.of_pure ▸ (reads_document ht _).of_answers hdoc⟩
    | some doc => exact ih h

theorem inert_keyOf (primaryKey : String) (doc : Fields) : Inert (t.keyOf primaryKey doc) := by
  unfold Table.keyOf
  split
  · exact Inert.pure _
  · exact (inert_freshKey ht _).bind (fun _ => Inert.pure _)

/-- The key of a document to insert is its own, or a fresh one that it is put under. -/
theorem keyOf_answers {primaryKey : String} {doc : Fields} {key : Value} {row : Fields}
    (h : Answers (t.keyOf primaryKey doc) m (key, row)) :
    (doc.get? primaryKey = some key ∧ key.isNull = false ∧ row = doc) ∨
      ((∀ v, doc.get? primaryKey = some v → v.isNull = true) ∧ (∃ s, key = .string s) ∧
        documentAt m t.name key = .ok none ∧ row = doc.keyed primaryKey key) := by
  unfold Table.keyOf at h
  split at h
  · next k hk =>
    obtain ⟨rfl, rfl⟩ := Prod.mk.inj h.of_pure
    obtain ⟨hget, hnull⟩ := Option.filter_eq_some_iff.mp hk
    exact Or.inl ⟨hget, by simpa using hnull, rfl⟩
  · next hnone =>
    obtain ⟨k, hk, h⟩ := h.of_bind (inert_freshKey ht _)
    obtain ⟨htext, hfree⟩ := freshKey_answers ht hk
    cases h.of_pure
    refine Or.inr ⟨fun v hv => ?_, htext, hfree, rfl⟩
    simpa [hv] using hnone

end Targets

include ht

theorem leads_insertOne {l : IndexList} (hl : loadIndexes Snapshot.store t.name m = .ok l)
    (conflict : Conflict) (doc : Fields) :
    Leads (RowStep t.name (Inserts t m conflict doc) m) m (t.insertOne l conflict doc) := by
  refine Leads.bind_inert (inert_keyOf ht _ _) RowStep.error ?_
  rintro ⟨key, row⟩ hrow
  refine Leads.bind_reads (reads_document ht key) RowStep.error (fun old hold => ?_)
  cases old with
  | none => exact leads_commit ht hl hold (.fresh hrow)
  | some old =>
    refine Leads.bind_reads (Reads.ofOutcome _) RowStep.error (fun new hnew => ?_)
    rw [Snapshot.ofOutcome_apply] at hnew
    exact leads_writeOver ht hl hold (.collide hrow hnew)

variable (hop : QuietOperand op)

include hop

theorem leads_deleteRow (R : Rule) (hrule : ∀ l key old,
    loadIndexes Snapshot.store t.name m = .ok l → Answers (op.resolve scope) m key →
      R l.primaryKey key (some old) none) :
    Leads (RowStep t.name R m) m (t.deleteRow scope op) := by
  refine Leads.report (Leads.bind_inert (inert_rowTarget ht hop) RowStep.error ?_)
  rintro ⟨l, key⟩ htarget
  obtain ⟨hl, hkey⟩ := rowTarget_answers ht hop htarget
  exact leads_deleteKey ht hl (fun old => hrule l key old hl hkey)

/-- **An update writes the patched document, if there is one to patch.** -/
theorem leads_update (patch : Value) :
    Leads (RowStep t.name (Updates m scope op patch) m) m (t.update scope op patch) := by
  refine Leads.bind_reads (Reads.ofOutcome _) RowStep.error (fun fields hfields => ?_)
  rw [Snapshot.ofOutcome_apply] at hfields
  split
  · next herase => exact leads_deleteRow ht hop _ (fun _ _ _ _ => .delete hfields herase)
  · next herase =>
    refine Leads.report (Leads.bind_inert (inert_rowTarget ht hop) RowStep.error ?_)
    rintro ⟨l, key⟩ htarget
    obtain ⟨hl, hkey⟩ := rowTarget_answers ht hop htarget
    refine Leads.bind_reads (Reads.ofOutcome _) RowStep.error (fun _ hcheck => ?_)
    rw [Snapshot.ofOutcome_apply] at hcheck
    refine Leads.bind_reads (reads_document ht key) RowStep.error (fun old hold => ?_)
    cases old with
    | none => exact Leads.pure .skipped
    | some old =>
      exact leads_writeOver ht hl hold
        (.merge hfields (Bool.eq_false_of_not_eq_true herase) hkey hcheck)

/-- **A replacement writes its document under the key.** -/
theorem leads_replace (doc : Value) :
    Leads (RowStep t.name (Replaces m scope op doc) m) m (t.replace scope op doc) := by
  refine Leads.bind_reads (Reads.ofOutcome _) RowStep.error (fun fields hfields => ?_)
  rw [Snapshot.ofOutcome_apply] at hfields
  split
  · next herase => exact leads_deleteRow ht hop _ (fun _ _ _ _ => .delete hfields herase)
  · next herase =>
    refine Leads.report (Leads.bind_inert (inert_rowTarget ht hop) RowStep.error ?_)
    rintro ⟨l, key⟩ htarget
    obtain ⟨hl, hkey⟩ := rowTarget_answers ht hop htarget
    refine Leads.bind_reads (Reads.ofOutcome _) RowStep.error (fun _ hcheck => ?_)
    rw [Snapshot.ofOutcome_apply] at hcheck
    have hput : ∀ old, Replaces m scope op doc l.primaryKey key old
        (some (fields.keyed l.primaryKey key)) := fun _ =>
      .put hfields (Bool.eq_false_of_not_eq_true herase) hkey hcheck
    refine Leads.bind_reads (reads_document ht key) RowStep.error (fun old hold => ?_)
    cases old with
    | none => exact leads_commit ht hl hold (hput none)
    | some old => exact leads_writeOver ht hl hold (hput (some old))

end Operations

end KeyValue

end QueryAlgebra
