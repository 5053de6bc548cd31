import QueryAlgebra.Proofs.KeyValue.Reliable
import QueryAlgebra.Proofs.Sql.Faults

/-!
# Batches of documents

Tables of both kinds insert documents one after another. Each document is written on the state that
the one before it left, whatever became of that one, a failure of the storage is put into the
result of its document, and the results are added up.

* `Batch.runs`: what becomes of each document of a batch.
* `Batch.on_reportEach`: the loop of an insert answers the sum of the runs.
* `Batch.Accounts`: the sum counts every document once. Accounts of two batches, one after the
  other, add up (`Accounts.merge`), so a batch has them when each of its documents has.
* `insert_accounts`: so does an insert into a table of either kind, once its header has been read.
-/

namespace QueryAlgebra

namespace Batch

variable {σ : Type}

/-! ## 1. Runs -/

/-- What became of one document of a batch. -/
structure Run (σ : Type) where
  /-- The document. -/
  doc : Fields
  /-- The state that it met. -/
  before : σ
  /-- What its write answered, or how it failed. -/
  outcome : Except Error WriteResult
  /-- The state that it left. -/
  after : σ

/-- The writes of a batch: each document meets the state that the one before it left. -/
def runs (write : Fields → Stateful σ WriteResult) : List Fields → σ → List (Run σ)
  | [], _ => []
  | doc :: docs, s =>
    ⟨doc, s, (Stateful.on (write doc) s).1, (Stateful.on (write doc) s).2⟩
      :: runs write docs (Stateful.on (write doc) s).2

/-- The state that a batch leaves. -/
def after (write : Fields → Stateful σ WriteResult) (docs : List Fields) (s : σ) : σ :=
  docs.foldl (fun s doc => (Stateful.on (write doc) s).2) s

/-- The failure of a document, in words. -/
def Run.message? (run : Run σ) : Option String :=
  match run.outcome with
  | .ok _ => none
  | .error e => some e.message

/-- Whether a document failed. -/
def Run.failed (run : Run σ) : Bool := run.message?.isSome

/-- The result of a document: what its write answered, or its failure. -/
def Run.told (run : Run σ) : WriteResult :=
  match run.outcome with
  | .ok r => r
  | .error e => .failure e.message

theorem Run.told_of_ok {run : Run σ} {r : WriteResult} (h : run.outcome = .ok r) :
    run.told = r := by
  rw [Run.told, h]

theorem Run.told_of_error {run : Run σ} {e : Error} (h : run.outcome = .error e) :
    run.told = .failure e.message := by
  rw [Run.told, h]

variable {write : Fields → Stateful σ WriteResult}

theorem map_doc_runs (docs : List Fields) (s : σ) : (runs write docs s).map Run.doc = docs := by
  induction docs generalizing s with
  | nil => rfl
  | cons doc docs ih => rw [runs, List.map_cons, ih]

/-- A run is the write of its document on the state that it met. -/
theorem on_of_mem_runs {docs : List Fields} {s : σ} {run : Run σ} (h : run ∈ runs write docs s) :
    Stateful.on (write run.doc) run.before = (run.outcome, run.after) := by
  induction docs generalizing s with
  | nil => exact absurd h List.not_mem_nil
  | cons doc docs ih =>
    rcases List.mem_cons.mp h with rfl | h
    · rfl
    · exact ih h

/-- **What every write keeps is met by every document of a batch,** and is left by the batch. -/
theorem kept {P : σ → Prop} (hwrite : ∀ doc s, P s → P (Stateful.on (write doc) s).2)
    {docs : List Fields} {s : σ} (hs : P s) :
    (∀ run ∈ runs write docs s, P run.before) ∧ P (after write docs s) := by
  induction docs generalizing s with
  | nil => exact ⟨fun run h => absurd h List.not_mem_nil, hs⟩
  | cons doc docs ih =>
    obtain ⟨hruns, hafter⟩ := ih (hwrite doc s hs)
    exact ⟨List.forall_mem_cons.mpr ⟨hs, hruns⟩, hafter⟩

/-! ## 2. The loop of an insert -/

/-- A computation answers what has a property, or fails with a fault of the storage. -/
def EndsIn {α : Type} (Q : α → Prop) (x : Stateful σ α) : Prop :=
  ∀ s, (∀ a, (Stateful.on x s).1 = .ok a → Q a) ∧
    ∀ e, (Stateful.on x s).1 = .error e → e.isStorageFault = true

/-- A computation fails with faults of the storage only. -/
abbrev Answers {α : Type} (x : Stateful σ α) : Prop := EndsIn (fun _ => True) x

section EndsIn

variable {α β : Type} {Q : α → Prop} {R : β → Prop}

theorem EndsIn.pure {a : α} (h : Q a) : EndsIn Q (pure a : Stateful σ α) :=
  fun _ => ⟨fun _ ha => Except.ok.inj ha ▸ h, fun _ he => by cases he⟩

theorem EndsIn.throw {e : Error} (h : e.isStorageFault = true) :
    EndsIn Q (throw e : Stateful σ α) :=
  fun _ => ⟨fun _ ha => (by cases ha), fun _ he => Except.error.inj he ▸ h⟩

theorem EndsIn.ofOutcome {x : Except Error α} (h : ∀ e, x = .error e → e.isStorageFault = true) :
    Answers (ofOutcome x : Stateful σ α) := by
  intro s
  rw [Stateful.on_ofOutcome]
  exact ⟨fun _ _ => trivial, h⟩

theorem EndsIn.bind {x : Stateful σ α} {f : α → Stateful σ β} (hx : EndsIn Q x)
    (hf : ∀ a, Q a → EndsIn R (f a)) : EndsIn R (x >>= f) := by
  intro s
  obtain ⟨hok, herror⟩ := hx s
  rw [Stateful.on_bind]
  rcases hon : Stateful.on x s with ⟨e | a, s'⟩ <;> rw [hon] at hok herror
  · exact ⟨fun _ hb => (by cases hb), fun e' he' => Except.error.inj he' ▸ herror e rfl⟩
  · exact hf a (hok a rfl) s'

/-- A sequence of which only the last part's answer matters. -/
theorem EndsIn.andThen {x : Stateful σ α} {f : α → Stateful σ β} (hx : Answers x)
    (hf : ∀ a, EndsIn R (f a)) : EndsIn R (x >>= f) := hx.bind fun a _ => hf a

end EndsIn

/-- **The loop of an insert answers the sum of its runs,** if its writes fail with faults of the
    storage only. -/
theorem on_reportEach (hwrite : ∀ doc, Answers (write doc)) (docs : List Fields)
    (total : WriteResult) (s : σ) :
    Stateful.on (WriteResult.reportEach write total docs) s
      = (.ok (((runs write docs s).map Run.told).foldl WriteResult.merge total),
        after write docs s) := by
  induction docs generalizing total s with
  | nil => rfl
  | cons doc docs ih =>
    have hreport : Stateful.on (WriteResult.report (write doc)) s
        = (.ok (Run.told ⟨doc, s, (Stateful.on (write doc) s).1, (Stateful.on (write doc) s).2⟩),
          (Stateful.on (write doc) s).2) := by
      obtain ⟨-, herror⟩ := hwrite doc s
      rw [WriteResult.on_report]
      rcases hon : Stateful.on (write doc) s with ⟨e | r, s'⟩ <;> rw [hon] at herror
      · exact Prod.ext (WriteResult.degrade_of_fault (herror e rfl)) rfl
      · rfl
    rw [WriteResult.reportEach, Stateful.on_bind, hreport]
    exact ih _ _

/-! ## 3. Accounts -/

/-- A result that counts one row as written or unchanged, and nothing else. -/
inductive OneRow : WriteResult → Prop
  | inserted : OneRow { inserted := 1 }
  | replaced : OneRow { replaced := 1 }
  | unchanged : OneRow { unchanged := 1 }

/-- **The accounts of a batch:** what its runs were, and how the result counts them. -/
structure Accounts (docs : List Fields) (batch : List (Run σ)) (r : WriteResult) : Prop where
  /-- Every document is run, in order. -/
  complete : batch.map Run.doc = docs
  /-- Every document is counted, and once. -/
  counted : r.inserted + r.replaced + r.unchanged + r.errors = docs.length
  /-- As many failures are counted as documents failed. -/
  errors : r.errors = batch.countP Run.failed
  /-- A document is skipped when it failed. -/
  skipped : r.skipped = r.errors
  /-- No row is deleted. -/
  deleted : r.deleted = 0
  /-- The failure in words is the one of the earliest document that failed. -/
  firstError : r.firstError = batch.findSome? Run.message?
  /-- A failure is put into words when one is counted. -/
  present : r.firstError.isSome ↔ 0 < r.errors

theorem Accounts.nil : Accounts [] ([] : List (Run σ)) {} := by
  constructor <;> simp

/-- The accounts of one document. -/
theorem Accounts.single {run : Run σ} (h : ∀ r, run.outcome = .ok r → OneRow r) :
    Accounts [run.doc] [run] run.told := by
  obtain ⟨doc, before, outcome, after⟩ := run
  cases outcome with
  | error e =>
    constructor <;> simp [Run.told, Run.failed, Run.message?, WriteResult.failure]
  | ok r =>
    cases h r rfl <;> constructor <;> simp [Run.told, Run.failed, Run.message?]

/-- **Accounts add up.** -/
theorem Accounts.merge {docs docs' : List Fields} {batch batch' : List (Run σ)}
    {r r' : WriteResult} (h : Accounts docs batch r) (h' : Accounts docs' batch' r') :
    Accounts (docs ++ docs') (batch ++ batch') (r.merge r') where
  complete := by rw [List.map_append, h.complete, h'.complete]
  counted := by
    rw [List.length_append, ← h.counted, ← h'.counted]
    simp only [WriteResult.merge]
    omega
  errors := by rw [List.countP_append, ← h.errors, ← h'.errors, WriteResult.merge]
  skipped := by simp only [WriteResult.merge, h.skipped, h'.skipped]
  deleted := by simp only [WriteResult.merge, h.deleted, h'.deleted]
  firstError := by
    rw [List.findSome?_append, ← h.firstError, ← h'.firstError, WriteResult.merge]
  present := by
    simp only [WriteResult.merge, Option.isSome_or, Bool.or_eq_true, h.present, h'.present]
    omega

/-- A batch has accounts when its documents have. -/
theorem Accounts.fold {docs : List Fields} {earlier batch : List (Run σ)} {total : WriteResult}
    (htotal : Accounts docs earlier total)
    (hbatch : ∀ run ∈ batch, ∀ r, run.outcome = .ok r → OneRow r) :
    Accounts (docs ++ batch.map Run.doc) (earlier ++ batch)
      ((batch.map Run.told).foldl WriteResult.merge total) := by
  induction batch generalizing docs earlier total with
  | nil => simpa using htotal
  | cons run batch ih =>
    obtain ⟨hrun, hbatch⟩ := List.forall_mem_cons.mp hbatch
    simpa using ih (htotal.merge (Accounts.single hrun)) hbatch

/-- **The loop of an insert accounts for its documents.** -/
theorem reportEach_accounts (hwrite : ∀ doc, EndsIn OneRow (write doc)) (docs : List Fields)
    (s : σ) :
    ∃ r, Stateful.on (WriteResult.reportEach write {} docs) s = (.ok r, after write docs s) ∧
      Accounts docs (runs write docs s) r := by
  have hanswers (doc : Fields) : Answers (write doc) :=
    fun s => ⟨fun _ _ => trivial, (hwrite doc s).2⟩
  refine ⟨_, on_reportEach hanswers docs {} s, ?_⟩
  have hrows : ∀ run ∈ runs write docs s, ∀ r, run.outcome = .ok r → OneRow r := by
    intro run hrun r hr
    refine (hwrite run.doc run.before).1 r ?_
    rw [on_of_mem_runs hrun, hr]
  simpa only [List.nil_append, map_doc_runs] using Accounts.nil.fold hrows

end Batch

open Batch

variable {σ : Type}

/-! ## 4. Key-value tables -/

namespace KeyValue

/-- The calls of a store by which documents are inserted fail with faults of the storage only. What
    they answer is left open, and so is which of them fail. -/
structure Store.Answers (store : Store (Stateful σ)) : Prop where
  get (key : String) : Batch.Answers (store.get key)
  batch (writes : List Write) : Batch.Answers (store.batch writes)
  freshId : Batch.Answers store.freshId

theorem isStorageFault_readRecord {text : String} {e : Error} (h : readRecord text = .error e) :
    e.isStorageFault = true := by
  unfold readRecord at h
  split at h
  · cases h
  · cases h
    rfl

theorem isStorageFault_readDocument {text : String} {e : Error}
    (h : readDocument text = .error e) : e.isStorageFault = true := by
  obtain h | ⟨v, -, h⟩ := bind_eq_error.mp h
  · exact isStorageFault_readRecord h
  · cases v <;> cases h <;> rfl

theorem isStorageFault_readValues {text : String} {e : Error} (h : readValues text = .error e) :
    e.isStorageFault = true := by
  obtain h | ⟨v, -, h⟩ := bind_eq_error.mp h
  · exact isStorageFault_readRecord h
  · cases v <;> cases h <;> rfl

theorem isStorageFault_overwritten {key : Value} {old doc : Fields} {conflict : Conflict}
    {e : Error} (h : Table.overwritten key old doc conflict = .error e) :
    e.isStorageFault = true := by
  cases conflict <;> cases h
  rfl

section Table

variable {t : Table (Stateful σ)} (h : t.store.Answers)

include h

theorem answers_fetch (key : Value) : Batch.Answers (t.fetch key) := by
  refine (h.get _).andThen fun text => ?_
  cases text with
  | none => exact EndsIn.pure trivial
  | some text =>
    exact (EndsIn.ofOutcome fun e => isStorageFault_readDocument).andThen fun _ =>
      EndsIn.pure trivial

theorem answers_lookup (field : String) (v : Value) :
    Batch.Answers (lookup t.store t.name field v) := by
  refine (h.get _).andThen fun text => ?_
  cases text with
  | none => exact EndsIn.pure trivial
  | some text => exact EndsIn.ofOutcome fun e => isStorageFault_readValues

theorem answers_indexWrites (key : Value) (old new : Option Fields) (fields : List String) :
    Batch.Answers (indexWrites t.store t.name key old new fields) := by
  have hentry (field : String) (change : List Value → List Value) (v : Option Value) :
      Batch.Answers (entryChange t.store t.name field change v) := by
    cases v with
    | none => exact EndsIn.pure trivial
    | some v => exact (answers_lookup h field v).andThen fun _ => EndsIn.pure trivial
  induction fields with
  | nil => exact EndsIn.pure trivial
  | cons field fields ih =>
    have hfield : Batch.Answers (fieldWrites t.store t.name key old new field) := by
      unfold fieldWrites
      dsimp only
      split_ifs
      · exact EndsIn.pure trivial
      · exact (hentry field _ _).andThen fun _ => (hentry field _ _).andThen fun _ =>
          EndsIn.pure trivial
    exact hfield.andThen fun _ => ih.andThen fun _ => EndsIn.pure trivial

/-- A commit, and the result that is answered when it succeeds. -/
theorem endsIn_commit {Q : WriteResult → Prop} {r : WriteResult} (hr : Q r) (indexes : IndexList)
    (key : Value) (old new : Option Fields) :
    EndsIn Q (commit t.store t.name indexes key old new >>= fun _ => pure r) := by
  have hcommit : Batch.Answers (commit t.store t.name indexes key old new) :=
    (answers_indexWrites h key old new _).andThen fun _ => h.batch _
  exact hcommit.andThen fun _ => EndsIn.pure hr

theorem answers_freshKey (attempts : Nat) : Batch.Answers (t.freshKey attempts) := by
  induction attempts with
  | zero => exact EndsIn.throw rfl
  | succ attempts ih =>
    refine h.freshId.andThen fun id => (answers_fetch h _).andThen fun doc => ?_
    cases doc with
    | none => exact EndsIn.pure trivial
    | some doc => exact ih

theorem answers_keyOf (primaryKey : String) (doc : Fields) :
    Batch.Answers (t.keyOf primaryKey doc) := by
  unfold Table.keyOf
  split
  · exact EndsIn.pure trivial
  · exact (answers_freshKey h _).andThen fun _ => EndsIn.pure trivial

/-- **The insert of a document counts one row,** or fails with a fault of the storage. -/
theorem endsIn_insertOne (indexes : IndexList) (conflict : Conflict) (doc : Fields) :
    EndsIn OneRow (t.insertOne indexes conflict doc) := by
  refine (answers_keyOf h indexes.primaryKey doc).andThen fun target => ?_
  refine (answers_fetch h target.1).andThen fun stored => ?_
  cases stored with
  | none => exact endsIn_commit h OneRow.inserted _ _ _ _
  | some old =>
    refine (EndsIn.ofOutcome fun e => isStorageFault_overwritten).andThen fun new => ?_
    unfold Table.writeOver
    split_ifs
    · exact EndsIn.pure OneRow.unchanged
    · exact endsIn_commit h OneRow.replaced _ _ _ _

end Table

end KeyValue

/-! ## 5. SQL tables -/

namespace Sql

/-- The calls of a connection by which documents are inserted fail with faults of the storage only.
    What they answer is left open, and so is which of them fail. -/
structure Connection.Answers (connection : Connection (Stateful σ)) : Prop where
  first (query : Statement) : Batch.Answers (connection.first query)
  exec (statement : Statement) : Batch.Answers (connection.exec statement)

/-- **The insert of a document counts one row,** or fails with a fault of the storage. -/
theorem endsIn_insertOne {t : Table (Stateful σ)} (h : t.connection.Answers) (primaryKey : String)
    (conflict : Conflict) (doc : Fields) : EndsIn OneRow (t.insertOne primaryKey conflict doc) := by
  have hfetch (key : Value) : Batch.Answers (t.fetchRow primaryKey key) := by
    refine (h.first _).andThen fun row => ?_
    cases row with
    | none => exact EndsIn.pure trivial
    | some row =>
      exact (EndsIn.ofOutcome fun e => isStorageFault_decodeRow).andThen fun _ =>
        EndsIn.pure trivial
  have hstored : Batch.Answers (t.storedRow primaryKey doc conflict) := by
    unfold Table.storedRow
    split
    · exact EndsIn.pure trivial
    · exact hfetch _
    · exact EndsIn.pure trivial
  refine hstored.andThen fun row => ?_
  cases row with
  | none => exact (h.exec _).andThen fun _ => EndsIn.pure OneRow.inserted
  | some old =>
    dsimp only
    split_ifs
    · exact EndsIn.pure OneRow.unchanged
    · exact (h.exec _).andThen fun _ => EndsIn.pure OneRow.replaced

end Sql

/-! ## 6. Both kinds -/

/-- **An insert accounts for every document,** into a table of either kind: once the index list, or
    the name of the primary key, has been read, it answers, whichever calls fail afterwards. Its
    documents are run one after another on what the header has left, each of them is counted once,
    and the failure in words is the earliest. -/
theorem insert_accounts {docs : Value} {list : List Fields} (hdocs : docs.documents = .ok list)
    (choice : Option Conflict) (s : σ) :
    (∀ (t : KeyValue.Table (Stateful σ)) (l : KeyValue.IndexList), t.store.Answers →
      (Stateful.on t.indexes s).1 = .ok l →
        let write := t.insertOne l (t.config.conflictFor choice)
        let s₀ := (Stateful.on t.indexes s).2
        ∃ r, Stateful.on (t.insert docs choice) s = (.ok r, after write list s₀) ∧
          Accounts list (runs write list s₀) r) ∧
      ∀ (t : Sql.Table (Stateful σ)) (primaryKey : String), t.connection.Answers →
        (Stateful.on (t.connection.primaryKey t.name) s).1 = .ok primaryKey →
          let write := t.insertOne primaryKey (t.config.conflictFor choice)
          let s₀ := (Stateful.on (t.connection.primaryKey t.name) s).2
          ∃ r, Stateful.on (t.insert docs choice) s = (.ok r, after write list s₀) ∧
            Accounts list (runs write list s₀) r := by
  refine ⟨fun t l h hindexes => ?_, fun t primaryKey h hname => ?_⟩
  · rw [KeyValue.Table.insert, WriteResult.on_insertAfter_of_ok _ hdocs hindexes]
    exact reportEach_accounts (KeyValue.endsIn_insertOne h l _) list _
  · rw [Sql.Table.insert, WriteResult.on_insertAfter_of_ok _ hdocs hname]
    exact reportEach_accounts (Sql.endsIn_insertOne h primaryKey _) list _

/-- The calls of a reliable store fail with faults of the storage only. -/
theorem KeyValue.Reliable.answers {j : KeyValue.Journal σ} {store : KeyValue.Store (Stateful σ)}
    (h : KeyValue.Reliable j store) : store.Answers where
  get key s := ⟨fun _ _ => trivial, fun e he => by
    obtain ⟨message, rfl⟩ := (h.get key s).2 e he
    rfl⟩
  batch writes s := ⟨fun _ _ => trivial, fun e he => by
    obtain ⟨-, ⟨hok, -⟩ | ⟨⟨message, hfailed⟩, -⟩⟩ := h.batch writes s
    · cases hok.symm.trans he
    · cases hfailed.symm.trans he
      rfl⟩
  freshId s := ⟨fun _ _ => trivial, fun e he => by
    obtain ⟨message, rfl⟩ := (h.freshId s).2 e he
    rfl⟩

/-- The calls of an observed connection fail with faults of the storage only. -/
theorem Sql.Observed.answers {failed : σ → Nat} {connection : Sql.Connection (Stateful σ)}
    (h : Sql.Observed failed connection) : connection.Answers where
  first query s := ⟨fun _ _ => trivial, ((h.first query).steady s).2⟩
  exec statement s := ⟨fun _ _ => trivial, ((h.exec statement).steady s).2⟩

/-- Three things, of which two have the same key. -/
def threeThings : List Fields :=
  [[("id", .string "a")], [("id", .string "b")], [("id", .string "a")]]

/-- A session with a table of things, whose first batch is lost. -/
def losing : KeyValue.Memory where
  content := KeyValue.Content.apply [] ((⟨"id", []⟩ : KeyValue.IndexList).record "things")
  fault call n := if call = .batch ∧ n = 0 then some "lost" else none

/-- A connection that loses the third of its calls, the second statement of an insert. -/
def losingScript : Sql.Script where
  fault n _ := if n = 2 then some "lost" else none

/-- One of three documents is lost: the first in a session, the second on a connection. -/
theorem threeThings_accounted :
    let docs := Value.array (threeThings.map .object)
    let t : KeyValue.Table KeyValue.Session := ⟨KeyValue.Memory.store, {}, "things", []⟩
    let r : WriteResult :=
      { inserted := 2, errors := 1, skipped := 1, firstError := some "storage error: lost" }
    ((Stateful.on (t.insert docs none) losing).1 = .ok r ∧
        ∃ batch : List (Run KeyValue.Memory), Accounts threeThings batch r) ∧
      (Stateful.on (Sql.things.insert docs none) losingScript).1 = .ok r ∧
        ∃ batch : List (Run Sql.Script), Accounts threeThings batch r := by
  intro docs t r
  have hlist : (Stateful.on t.indexes losing).1.toOption = some ⟨"id", []⟩ := by decide +kernel
  have hkv : (Stateful.on (t.insert docs none) losing).1.toOption = some r := by decide +kernel
  have hsql : (Stateful.on (Sql.things.insert docs none) losingScript).1.toOption = some r := by
    decide +kernel
  have hdocs : docs.documents = .ok threeThings := rfl
  obtain ⟨r₁, hr₁, haccounts₁⟩ := (insert_accounts hdocs none losing).1 t _
    KeyValue.session_reliable.answers (ok_of_toOption hlist)
  obtain ⟨r₂, hr₂, haccounts₂⟩ := (insert_accounts hdocs none losingScript).2
    Sql.things "id" (Sql.script_observed .sqlite "id").answers rfl
  obtain rfl : r₁ = r := Except.ok.inj ((congrArg Prod.fst hr₁).symm.trans (ok_of_toOption hkv))
  obtain rfl : r₂ = r := Except.ok.inj ((congrArg Prod.fst hr₂).symm.trans (ok_of_toOption hsql))
  exact ⟨⟨ok_of_toOption hkv, _, haccounts₁⟩, ok_of_toOption hsql, _, haccounts₂⟩

end QueryAlgebra
