import QueryAlgebra.Proofs.KeyValue.Reliable
import QueryAlgebra.Proofs.Table.Reporting

/-!
# Writes that are whole

On a reliable store a write of a table reads first and hands the store one batch at the end: it
changes the content by that batch, and only when it succeeds.

* `Whole`: a computation that leaves the content as it was, or applies one batch and succeeds.
* `commit_whole`, `insertOne_whole`, `deleteKey_whole`, …: one lemma for every write.
* `RowByRow`: rows written one after another, each of them as a whole. An insert is so
  (`insert_rowByRow`), and the delete of a selection (`deleteStream_rowByRow`).
-/

namespace QueryAlgebra

/-- A result that says that all rows were written. -/
def WriteResult.Counts (r : WriteResult) : Prop := r.errors = 0 ∧ r.skipped = 0 ∧ r.unchanged = 0

namespace KeyValue

/-! ## 1. Whole computations -/

section Whole

variable {σ α β : Type} (j : Journal σ)

/-- Nothing was written; at most one batch was handed over. -/
def Untouched (s s' : σ) : Prop :=
  j.content s' = j.content s ∧ (j.tried s' = j.tried s ∨ j.tried s' = j.tried s + 1)

/-- One batch was handed over, and applied as a whole. -/
def Written (s s' : σ) : Prop :=
  j.tried s' = j.tried s + 1 ∧ ∃ writes, j.content s' = (j.content s).applyAll writes

/-- **A computation that is whole:** it leaves the content as it was, or it applies one batch, and
    then it succeeds with an answer that says so. -/
def Whole (counts : α → Prop) (x : Stateful σ α) : Prop :=
  ∀ s, Untouched j s (Stateful.on x s).2 ∨
    (Written j s (Stateful.on x s).2 ∧ ∃ a, (Stateful.on x s).1 = .ok a ∧ counts a)

variable {j} {counts : β → Prop}

theorem Silent.untouched {s s' : σ} (h : Silent j s s') : Untouched j s s' := ⟨h.1, Or.inl h.2⟩

theorem Silent.trans_untouched {s₁ s₂ s₃ : σ} (h : Silent j s₁ s₂) (h' : Untouched j s₂ s₃) :
    Untouched j s₁ s₃ := by
  obtain ⟨hcontent, htried⟩ := h'
  rw [h.2] at htried
  exact ⟨hcontent.trans h.1, htried⟩

theorem Silent.trans_written {s₁ s₂ s₃ : σ} (h : Silent j s₁ s₂) (h' : Written j s₂ s₃) :
    Written j s₁ s₃ := by
  obtain ⟨htried, writes, hcontent⟩ := h'
  rw [h.1] at hcontent
  rw [h.2] at htried
  exact ⟨htried, writes, hcontent⟩

theorem Reading.whole {x : Stateful σ β} (hx : Reading j x) : Whole j counts x :=
  fun s => Or.inl (hx s).untouched

/-- What reads before it is whole is whole. -/
theorem Whole.after {x : Stateful σ α} {f : α → Stateful σ β} (hx : Reading j x)
    (hf : ∀ a, Whole j counts (f a)) : Whole j counts (x >>= f) := by
  intro s
  have hsilent := hx s
  rw [Stateful.on_bind]
  rcases hon : Stateful.on x s with ⟨e | a, s'⟩ <;> rw [hon] at hsilent
  · exact Or.inl hsilent.untouched
  · rcases hf a s' with h | ⟨hwritten, hanswer⟩
    · exact Or.inl (hsilent.trans_untouched h)
    · exact Or.inr ⟨hsilent.trans_written hwritten, hanswer⟩

/-- What is whole stays so when it ends with an answer that says so. -/
theorem Whole.answer {x : Stateful σ α} (hx : Whole j (fun _ => True) x) {b : β} (hb : counts b) :
    Whole j counts (x >>= fun _ => pure b) := by
  intro s
  have hs := hx s
  rw [Stateful.on_bind]
  rcases hon : Stateful.on x s with ⟨e | a, s'⟩ <;> rw [hon] at hs
  · rcases hs with hs | ⟨-, a, ha, -⟩
    · exact Or.inl hs
    · cases ha
  · rcases hs with hs | ⟨hwritten, -⟩
    · exact Or.inl hs
    · exact Or.inr ⟨hwritten, b, rfl, hb⟩

/-- **Reporting a failure keeps a write whole:** a failure has left the content as it was. -/
theorem Whole.report {counts : WriteResult → Prop} {x : Stateful σ WriteResult}
    (hx : Whole j counts x) : Whole j counts (WriteResult.report x) := by
  intro s
  have hs := hx s
  rw [WriteResult.on_report]
  rcases hon : Stateful.on x s with ⟨e | r, s'⟩ <;> rw [hon] at hs
  · rcases hs with hs | ⟨-, r, hr, -⟩
    · exact Or.inl hs
    · cases hr
  · exact hs

theorem Reliable.batch_whole {store : Store (Stateful σ)} (h : Reliable j store)
    (writes : List Write) : Whole j (fun _ => True) (store.batch writes) := by
  intro s
  obtain ⟨htried, ⟨hok, hcontent⟩ | ⟨-, hcontent⟩⟩ := h.batch writes s
  · exact Or.inr ⟨⟨htried, writes, hcontent⟩, (), hok, trivial⟩
  · exact Or.inl ⟨hcontent, Or.inr htried⟩

end Whole

/-! ## 2. Writes of one document -/

section Tables

variable {σ : Type} {j : Journal σ} {t : Table (Stateful σ)} (h : Reliable j t.store)

include h

/-- **Writing a document and its index entries is one batch.** -/
theorem commit_whole (indexes : IndexList) (key : Value) (old new : Option Fields) :
    Whole j (fun _ => True) (commit t.store t.name indexes key old new) :=
  Whole.after (reading_indexWrites h key old new _) fun _ => h.batch_whole _

theorem writeOver_whole (indexes : IndexList) (key : Value) (old new : Fields) :
    Whole j WriteResult.Counts (t.writeOver indexes key old new) := by
  unfold Table.writeOver
  split_ifs
  · exact (Reading.pure _).whole
  · exact (commit_whole h indexes key _ _).answer ⟨rfl, rfl, rfl⟩

theorem deleteKey_whole (indexes : IndexList) (key : Value) :
    Whole j WriteResult.Counts (t.deleteKey indexes key) := by
  refine Whole.after (reading_fetch h key) fun doc => ?_
  cases doc with
  | none => exact (Reading.pure _).whole
  | some old => exact (commit_whole h indexes key _ _).answer ⟨rfl, rfl, rfl⟩

/-- **An insert of one document is whole.** -/
theorem insertOne_whole (indexes : IndexList) (conflict : Conflict) (doc : Fields) :
    Whole j WriteResult.Counts (t.insertOne indexes conflict doc) := by
  refine Whole.after (reading_keyOf h indexes.primaryKey doc) fun target => ?_
  refine Whole.after (reading_fetch h target.1) fun old => ?_
  cases old with
  | none => exact (commit_whole h indexes _ _ _).answer ⟨rfl, rfl, rfl⟩
  | some old => exact Whole.after (Reading.ofOutcome _) fun new => writeOver_whole h indexes _ old new

section Rows

variable {scope : Scope} {key : Operand (Stateful σ)} (hkey : key.Tasks (Anyway (Yields σ)))

include hkey

theorem deleteRow_whole : Whole j WriteResult.Counts (t.deleteRow scope key) :=
  (Whole.after (reading_rowTarget h hkey) fun target =>
    deleteKey_whole h target.1 target.2).report

/-- **An update is whole.** -/
theorem update_whole (patch : Value) : Whole j WriteResult.Counts (t.update scope key patch) := by
  refine Whole.after (Reading.ofOutcome _) fun patch => ?_
  split_ifs
  · exact deleteRow_whole h hkey
  · refine Whole.report (Whole.after (reading_rowTarget h hkey) fun target => ?_)
    refine Whole.after (Reading.ofOutcome _) fun _ => ?_
    refine Whole.after (reading_fetch h target.2) fun doc => ?_
    cases doc with
    | none => exact (Reading.pure _).whole
    | some old => exact writeOver_whole h target.1 target.2 old _

/-- **A replacement is whole.** -/
theorem replace_whole (doc : Value) : Whole j WriteResult.Counts (t.replace scope key doc) := by
  refine Whole.after (Reading.ofOutcome _) fun doc => ?_
  split_ifs
  · exact deleteRow_whole h hkey
  · refine Whole.report (Whole.after (reading_rowTarget h hkey) fun target => ?_)
    refine Whole.after (Reading.ofOutcome _) fun _ => ?_
    refine Whole.after (reading_fetch h target.2) fun old => ?_
    cases old with
    | none => exact (commit_whole h target.1 target.2 _ _).answer ⟨rfl, rfl, rfl⟩
    | some old => exact writeOver_whole h target.1 target.2 old _

end Rows

/-! ## 3. Indexes and tables -/

/-- **Creating an index is whole.** -/
theorem createIndex_whole (field : String) : Whole j (fun _ => True) (t.createIndex field) := by
  refine Whole.after (Reading.ofOutcome _) fun _ => Whole.after (reading_indexes h) fun l => ?_
  have hrebuild : Reading j (rebuild t.store t.name field l.primaryKey) :=
    (h.reading_scan _).bind fun _ => (Reading.ofOutcome _).bind fun _ => Reading.pure _
  have hwrite := Whole.after hrebuild fun writes =>
    h.batch_whole (writes ++ [(l.add field).record t.name])
  split_ifs
  · exact Whole.after (Reading.throw _) fun _ => hwrite
  · exact hwrite

/-- **Dropping an index is whole.** -/
theorem dropIndex_whole (field : String) : Whole j (fun _ => True) (t.dropIndex field) := by
  refine Whole.after (reading_indexes h) fun l => ?_
  have hwrite := Whole.after (h.reading_scan (Space.index t.name field).stem) fun entries =>
    h.batch_whole (entries.map (fun e => Write.del e.1) ++ [(l.remove field).record t.name])
  split_ifs
  · exact Whole.after (Reading.throw _) fun _ => hwrite
  · exact hwrite

end Tables

section Databases

variable {σ : Type} {j : Journal σ} {db : Database (Stateful σ)} (h : Reliable j db.store)

include h

theorem reading_tables : Reading j db.tables := by
  refine (h.reading_get _).bind fun text => ?_
  cases text with
  | none => exact Reading.pure _
  | some text => exact Reading.ofOutcome _

/-- **Creating a table is whole.** -/
theorem create_whole (name : String) (schema : Schema) :
    Whole j (fun _ => True) (db.create name schema) := by
  refine Whole.after (Reading.ofOutcome _) fun _ => Whole.after (reading_tables h) fun names => ?_
  have hwrite (writes : List Write) : Whole j (fun _ => True)
      (db.store.batch writes >>= fun _ => pure (db.table name schema)) :=
    (h.batch_whole writes).answer trivial
  split_ifs
  · exact Whole.after (Reading.throw _) fun _ => hwrite _
  · exact hwrite _

/-- **Dropping a table is whole.** -/
theorem drop_whole (name : String) : Whole j (fun _ => True) (db.drop name) := by
  refine Whole.after (reading_tables h) fun names => ?_
  split_ifs
  · exact Whole.after (h.reading_scan _) fun _ => h.batch_whole _
  · exact (Reading.pure _).whole

end Databases

/-! ## 4. Writes of several rows -/

section Rows

variable {σ α : Type} (j : Journal σ)

/-- **Rows written one after another**, by what is reported of each: a row leaves the content as it
    was, or it is written in one batch and reported as written. Between rows nothing is written. -/
inductive RowsWritten : σ → List WriteResult → σ → Prop where
  /-- No more rows. -/
  | done {s s' : σ} (h : Silent j s s') : RowsWritten s [] s'
  /-- One row, then the others. -/
  | row {s₁ s₂ s₃ : σ} {r : WriteResult} {rs : List WriteResult}
      (h : Untouched j s₁ s₂ ∨ (Written j s₁ s₂ ∧ r.Counts)) (hrest : RowsWritten s₂ rs s₃) :
      RowsWritten s₁ (r :: rs) s₃

/-- **A write of several rows:** they are written one after another, and the answer is the sum of what
    is reported of each, with as many rows as there should be, or else one failure before any row. -/
def RowByRow (size : Nat → Prop) (x : Stateful σ WriteResult) : Prop :=
  ∀ s, ∃ rs, RowsWritten j s rs (Stateful.on x s).2 ∧ ∀ total, (Stateful.on x s).1 = .ok total →
    (size rs.length ∧ total = rs.foldl WriteResult.merge {}) ∨
      (rs = [] ∧ ∃ message, total = WriteResult.failure message)

/-- What is left of a write of several rows: the rows are added to a total, and no fault of the
    storage is raised. -/
def Adds (size : Nat → Prop) (total : WriteResult) (x : Stateful σ WriteResult) : Prop :=
  ∀ s, ∃ rs, RowsWritten j s rs (Stateful.on x s).2 ∧
    (∀ r, (Stateful.on x s).1 = .ok r → size rs.length ∧ r = rs.foldl WriteResult.merge total) ∧
    ∀ e, (Stateful.on x s).1 = .error e → e.isStorageFault = false

/-- A write of several rows before its failures are reported: a fault of the storage is raised before
    any row is written. -/
def Attempts (size : Nat → Prop) (x : Stateful σ WriteResult) : Prop :=
  ∀ s, ∃ rs, RowsWritten j s rs (Stateful.on x s).2 ∧
    (∀ r, (Stateful.on x s).1 = .ok r → size rs.length ∧ r = rs.foldl WriteResult.merge {}) ∧
    ∀ e, (Stateful.on x s).1 = .error e → rs = [] ∨ e.isStorageFault = false

variable {j}

/-- What is read before the first row changes nothing. -/
theorem RowsWritten.after {s₁ s₂ s₃ : σ} {rs : List WriteResult} (h : Silent j s₁ s₂)
    (hrows : RowsWritten j s₂ rs s₃) : RowsWritten j s₁ rs s₃ := by
  cases hrows with
  | done h' => exact .done (h.trans h')
  | row hrow hrest =>
    refine .row ?_ hrest
    rcases hrow with hrow | ⟨hwritten, hcounts⟩
    · exact Or.inl (h.trans_untouched hrow)
    · exact Or.inr ⟨h.trans_written hwritten, hcounts⟩

variable {size : Nat → Prop} {total : WriteResult}

theorem Adds.pure (hsize : size 0) : Adds j size total (pure total) :=
  fun s => ⟨[], .done (Silent.refl s), fun _ hr => ⟨hsize, (Except.ok.inj hr).symm⟩,
    fun _ he => by cases he⟩

/-- One row, and the others on what it leaves. -/
theorem Adds.row {size' : Nat → Prop} {x : Stateful σ WriteResult}
    {f : WriteResult → Stateful σ WriteResult} (hx : Whole j WriteResult.Counts x)
    (hf : ∀ r, Adds j size' (total.merge r) (f r)) (hsize : ∀ n, size' n → size (n + 1)) :
    Adds j size total (WriteResult.report x >>= f) := by
  intro s
  have hrow := hx.report s
  have hfault := @isStorageFault_report σ x s
  rw [Stateful.on_bind]
  rcases hon : Stateful.on (WriteResult.report x) s with ⟨e | r, s'⟩ <;> rw [hon] at hrow hfault
  · rcases hrow with hrow | ⟨-, r, hr, -⟩
    · refine ⟨[WriteResult.failure e.message], .row (Or.inl hrow) (.done (Silent.refl s')),
        fun r hr => ?_, fun e' he => hfault he⟩
      cases hr
    · cases hr
  · obtain ⟨rs, hrows, hok, herror⟩ := hf r s'
    refine ⟨r :: rs, .row ?_ hrows, fun answer hanswer => ?_, herror⟩
    · rcases hrow with hrow | ⟨hwritten, r', hr, hcounts⟩
      · exact Or.inl hrow
      · cases hr
        exact Or.inr ⟨hwritten, hcounts⟩
    · obtain ⟨hlength, hsum⟩ := hok answer hanswer
      exact ⟨hsize _ hlength, hsum⟩

/-- Documents one after another, each of them written whole. -/
theorem Adds.each {write : Fields → Stateful σ WriteResult}
    (hwrite : ∀ doc, Whole j WriteResult.Counts (write doc)) (docs : List Fields)
    (total : WriteResult) :
    Adds j (· = docs.length) total (WriteResult.reportEach write total docs) := by
  induction docs generalizing total with
  | nil => exact Adds.pure rfl
  | cons doc docs ih =>
    exact Adds.row (hwrite doc) (fun r => ih (total.merge r)) fun n hn => by rw [hn, List.length_cons]

theorem Adds.attempts {x : Stateful σ WriteResult} (h : Adds j size {} x) : Attempts j size x := by
  intro s
  obtain ⟨rs, hrows, hok, herror⟩ := h s
  exact ⟨rs, hrows, hok, fun e he => Or.inr (herror e he)⟩

theorem Attempts.throw (e : Error) : Attempts j size (throw e) := by
  refine fun s => ⟨[], .done (Silent.refl s), fun r hr => ?_, fun _ _ => Or.inl rfl⟩
  cases hr

theorem Attempts.after {x : Stateful σ α} {f : α → Stateful σ WriteResult} (hx : Reading j x)
    (hf : ∀ a, Attempts j size (f a)) : Attempts j size (x >>= f) := by
  intro s
  have hsilent := hx s
  rw [Stateful.on_bind]
  rcases hon : Stateful.on x s with ⟨e | a, s'⟩ <;> rw [hon] at hsilent
  · exact ⟨[], .done hsilent, fun r hr => (by cases hr), fun e he => Or.inl rfl⟩
  · obtain ⟨rs, hrows, hanswer⟩ := hf a s'
    exact ⟨rs, hrows.after hsilent, hanswer⟩

theorem Adds.rowByRow {x : Stateful σ WriteResult} (h : Adds j size {} x) : RowByRow j size x := by
  intro s
  obtain ⟨rs, hrows, hok, -⟩ := h s
  exact ⟨rs, hrows, fun r hr => Or.inl (hok r hr)⟩

/-- **Reporting keeps a write of several rows what it is:** what it reports by itself has come before
    the first row. -/
theorem Attempts.report {x : Stateful σ WriteResult} (h : Attempts j size x) :
    RowByRow j size (WriteResult.report x) := by
  intro s
  obtain ⟨rs, hrows, hok, herror⟩ := h s
  rw [WriteResult.on_report]
  rcases hon : Stateful.on x s with ⟨e | r, s'⟩ <;> rw [hon] at hrows hok herror
  · refine ⟨rs, hrows, fun total (htotal : WriteResult.degrade (.error e) = .ok total) => Or.inr ?_⟩
    simp only [WriteResult.degrade] at htotal
    split_ifs at htotal with hfault
    rcases herror e rfl with hnil | hfalse
    · exact ⟨hnil, e.message, (Except.ok.inj htotal).symm⟩
    · rw [hfalse] at hfault
      cases hfault
  · exact ⟨rs, hrows, fun total htotal => Or.inl (hok total htotal)⟩

theorem RowByRow.mono {size' : Nat → Prop} {x : Stateful σ WriteResult}
    (hsize : ∀ n, size n → size' n) (h : RowByRow j size x) : RowByRow j size' x := by
  intro s
  obtain ⟨rs, hrows, hanswer⟩ := h s
  exact ⟨rs, hrows, fun total htotal => (hanswer total htotal).imp_left (And.imp_left (hsize _))⟩

theorem RowByRow.throw (e : Error) : RowByRow j size (throw e) := by
  refine fun s => ⟨[], .done (Silent.refl s), fun r hr => ?_⟩
  cases hr

theorem RowByRow.degrade (e : Error) :
    RowByRow j size (ofOutcome (WriteResult.degrade (.error e))) := by
  simp only [WriteResult.degrade]
  split_ifs
  · exact fun s => ⟨[], .done (Silent.refl s), fun r hr =>
      Or.inr ⟨rfl, e.message, (Except.ok.inj hr).symm⟩⟩
  · exact RowByRow.throw e

theorem RowByRow.after {x : Stateful σ α} {f : α → Stateful σ WriteResult} (hx : Reading j x)
    (hf : ∀ a, RowByRow j size (f a)) : RowByRow j size (x >>= f) := by
  intro s
  have hsilent := hx s
  rw [Stateful.on_bind]
  rcases hon : Stateful.on x s with ⟨e | a, s'⟩ <;> rw [hon] at hsilent
  · exact ⟨[], .done hsilent, fun r hr => by cases hr⟩
  · obtain ⟨rs, hrows, hanswer⟩ := hf a s'
    exact ⟨rs, hrows.after hsilent, hanswer⟩

/-- An insert writes document by document when its header is read, and each document written whole. -/
theorem RowByRow.insertAfter {η : Type} {header : Stateful σ η}
    {write : η → Fields → Stateful σ WriteResult} (hheader : Reading j header)
    (hwrite : ∀ read doc, Whole j WriteResult.Counts (write read doc)) (docs : Value) :
    RowByRow j (fun n => ∀ list, docs.documents = .ok list → n = list.length)
      (WriteResult.insertAfter header write docs) := by
  unfold WriteResult.insertAfter
  cases hdocs : docs.documents with
  | error e => exact RowByRow.throw e
  | ok list =>
    have hattempt : Reading j (MonadExcept.tryCatch (do return .ok (← header) : Stateful σ _)
        (fun e => Pure.pure (Except.error e))) :=
      (hheader.bind fun _ => Reading.pure _).tryCatch fun _ => Reading.pure _
    refine RowByRow.mono (fun n (hn : n = list.length) list' hlist' => Except.ok.inj hlist' ▸ hn) ?_
    change RowByRow j _ (Pure.pure list >>= _)
    rw [pure_bind]
    refine RowByRow.after hattempt fun outcome => ?_
    cases outcome with
    | error e => exact RowByRow.degrade e
    | ok read => exact (Adds.each (hwrite read) list {}).rowByRow

end Rows

section Streams

variable {σ : Type} {j : Journal σ} {t : Table (Stateful σ)} (h : Reliable j t.store)

include h

theorem adds_deleteItems (indexes : IndexList) (items : List Value) (total : WriteResult) :
    Adds j (fun _ => True) total (t.deleteItems indexes total items) := by
  induction items generalizing total with
  | nil => exact Adds.pure trivial
  | cons item items ih =>
    rw [Table.deleteItems.eq_def]
    cases item with
    | object fields =>
      dsimp only
      cases (Fields.get? fields indexes.primaryKey).filter (fun k => !k.isNull) with
      | some key => exact Adds.row (deleteKey_whole h indexes key) (fun r => ih _) fun _ _ => trivial
      | none => exact ih total
    | _ => exact ih total

/-- **An insert writes document by document.** -/
theorem insert_rowByRow (docs : Value) (choice : Option Conflict) :
    RowByRow j (fun n => ∀ list, docs.documents = .ok list → n = list.length)
      (t.insert docs choice) :=
  RowByRow.insertAfter (reading_indexes h) (fun l => insertOne_whole h l _) docs

/-- **A selection is deleted row by row.** -/
theorem deleteStream_rowByRow {scope : Scope} {keys : Option (KeyScope (Stateful σ))}
    {entries : List (Entry (Stateful σ))}
    (hkeys : ∀ k ∈ keys, OperandsTasks (Anyway (Yields σ)) k.keys)
    (hentries : EntriesTasks (Anyway (Yields σ)) entries) :
    RowByRow j (fun _ => True) (t.deleteStream scope keys entries) := by
  obtain ⟨outcome, heq, hpipeline⟩ := closed_yields.ofEntries hentries scope
  unfold Table.deleteStream
  rw [heq]
  cases outcome with
  | error e => exact RowByRow.throw e
  | ok pipeline =>
    refine Attempts.report (Attempts.after (reading_indexes h) fun indexes => ?_)
    refine Attempts.after (reading_documents h hkeys) fun docs => ?_
    refine Attempts.after (closed_yields.run (hpipeline pipeline rfl) docs).reading fun v => ?_
    cases v with
    | array items => exact (adds_deleteItems h indexes items {}).attempts
    | _ => exact Attempts.throw _

end Streams

end KeyValue

end QueryAlgebra
