import QueryAlgebra.Proofs.Table.Batches

/-!
# Statements and results

What a write tells about its rows is what became of its statements. A connection may answer anything
and any of its calls may fail; all that is assumed is a log of its calls (`Recorded`). Every write
then only asks, or asks and issues one statement at the end. A row counts as inserted, replaced or
deleted when that statement succeeded, and when it failed one error is counted (`Told`).

* `Asks`: a computation that issues no statement. A queue is so when its tasks are.
* `Tells`: a computation whose calls and whose outcome agree.
* `WritesTold`: all writes of a table, and what each of them may issue.
-/

namespace QueryAlgebra

/-- A result that counts no row as written. -/
structure WriteResult.Unwritten (r : WriteResult) : Prop where
  inserted : r.inserted = 0
  replaced : r.replaced = 0
  deleted : r.deleted = 0

namespace Sql

open Batch

/-! ## 1. Calls -/

/-- A call as it is logged. -/
inductive Event where
  /-- A call that asks: for rows, or for the name of a primary key. -/
  | query
  /-- A statement, and whether it succeeded. -/
  | exec (statement : Statement) (succeeded : Bool)

section Calls

variable {σ α β : Type} (log : σ → List Event)

/-- A call that asks is logged, and fails with a fault of the storage only. -/
def Queries (x : Stateful σ α) : Prop :=
  ∀ s, log (Stateful.on x s).2 = log s ++ [.query] ∧
    ∀ e, (Stateful.on x s).1 = .error e → ∃ message, e = .storage message

/-- **What is assumed of a connection:** its calls are logged, statements with what became of them,
    and those that fail do so with faults of the storage. What they answer is left open, and so is
    which of them fail. -/
structure Recorded (connection : Connection (Stateful σ)) : Prop where
  first (query : Statement) : Queries log (connection.first query)
  all (query : Statement) : Queries log (connection.all query)
  primaryKey (table : String) : Queries log (connection.primaryKey table)
  exec (statement : Statement) (s : σ) :
    ((Stateful.on (connection.exec statement) s).1 = .ok () ∧
        log (Stateful.on (connection.exec statement) s).2 = log s ++ [.exec statement true]) ∨
      ((∃ message, (Stateful.on (connection.exec statement) s).1 = .error (.storage message)) ∧
        log (Stateful.on (connection.exec statement) s).2 = log s ++ [.exec statement false])

/-- A computation issues no statement, and its answer has a property. -/
def Asks (Q : α → Prop) (x : Stateful σ α) : Prop :=
  ∀ s, (∃ n, log (Stateful.on x s).2 = log s ++ List.replicate n .query) ∧
    ∀ a, (Stateful.on x s).1 = .ok a → Q a

variable {log}

theorem closed_asks : Closed (M := Stateful σ) (fun _ => Asks log) where
  pure h _ := ⟨⟨0, (List.append_nil _).symm⟩, fun _ ha => Except.ok.inj ha ▸ h⟩
  throw _ _ := ⟨⟨0, (List.append_nil _).symm⟩, fun _ ha => by cases ha⟩
  bind {_ _ _ _ x f} hx hf s := by
    obtain ⟨⟨n, hn⟩, hQ⟩ := hx s
    rw [Stateful.on_bind]
    rcases hon : Stateful.on x s with ⟨e | a, s'⟩ <;> rw [hon] at hn hQ
    · exact ⟨⟨n, hn⟩, fun _ hb => by cases hb⟩
    · obtain ⟨⟨m, hm⟩, hR⟩ := hf a (hQ a rfl) s'
      refine ⟨⟨n + m, ?_⟩, hR⟩
      rw [hm, hn, List.append_assoc, List.replicate_append_replicate]

theorem Queries.asks {x : Stateful σ α} (h : Queries log x) : Anyway (fun _ => Asks log) x :=
  fun s => ⟨⟨1, (h s).1⟩, fun _ _ => trivial⟩

theorem Queries.answers {x : Stateful σ α} (h : Queries log x) : Batch.Answers x :=
  fun s => ⟨fun _ _ => trivial, fun e he => by
    obtain ⟨message, rfl⟩ := (h s).2 e he
    rfl⟩

theorem Recorded.answers {connection : Connection (Stateful σ)} (h : Recorded log connection) :
    connection.Answers where
  first query := (h.first query).answers
  exec statement s := by
    refine ⟨fun _ _ => trivial, fun e he => ?_⟩
    rcases h.exec statement s with ⟨hok, -⟩ | ⟨⟨message, hfailed⟩, -⟩
    · cases hok.symm.trans he
    · cases hfailed.symm.trans he
      rfl

end Calls

/-! ## 2. Results -/

/-- What a row may count as, by the statement that is issued for it. -/
abbrev Counting := Statement → WriteResult → Prop

/-- **What the calls of a write and its outcome say of each other.** All calls but the last ask, and
    the last may be a statement. -/
inductive Told (counts : Counting) : List Event → Except Error WriteResult → Prop
  /-- No statement is issued, and no row is counted as written. -/
  | idle (n : Nat) {outcome : Except Error WriteResult}
    (h : ∀ r, outcome = .ok r → r.Unwritten) : Told counts (List.replicate n .query) outcome
  /-- The statement succeeds, and its rows are counted. -/
  | done (n : Nat) {statement : Statement} {r : WriteResult} (h : counts statement r) :
    Told counts (List.replicate n .query ++ [.exec statement true]) (.ok r)
  /-- The statement fails, and one error is counted. -/
  | failed (n : Nat) (statement : Statement) (message : String) :
    Told counts (List.replicate n .query ++ [.exec statement false])
      (.ok (.failure (Error.storage message).message))

section Results

variable {σ α : Type} (log : σ → List Event) (counts : Counting)

/-- What was logged from one state to another agrees with an outcome. -/
def Logged (before : σ) (outcome : Except Error WriteResult) (after : σ) : Prop :=
  ∃ events, log after = log before ++ events ∧ Told counts events outcome

variable (seen : Except Error WriteResult → Except Error WriteResult)

/-- How failures are seen: they are raised, or become results that count no row as written. -/
structure Seen : Prop where
  answer (r : WriteResult) : seen (.ok r) = .ok r
  failure {e : Error} {r : WriteResult} (h : seen (.error e) = .ok r) : r.Unwritten

/-- A write, its failures seen in one way, agrees with its calls. -/
def Tells (x : Stateful σ WriteResult) (s : σ) : Prop :=
  Logged log counts s (seen (Stateful.on x s).1) (Stateful.on x s).2

theorem seen_raised : Seen id := ⟨fun _ => rfl, fun h => by cases h⟩

theorem seen_reported : Seen WriteResult.degrade where
  answer _ := rfl
  failure {e r} h := by
    unfold WriteResult.degrade at h
    dsimp only at h
    split_ifs at h
    cases h
    exact ⟨rfl, rfl, rfl⟩

variable {log counts seen}

theorem Told.after {events : List Event} {outcome : Except Error WriteResult}
    (h : Told counts events outcome) (n : Nat) :
    Told counts (List.replicate n .query ++ events) outcome := by
  cases h with
  | idle m h =>
    rw [List.replicate_append_replicate]
    exact .idle _ h
  | done m h =>
    rw [← List.append_assoc, List.replicate_append_replicate]
    exact .done _ h
  | failed m statement message =>
    rw [← List.append_assoc, List.replicate_append_replicate]
    exact .failed _ statement message

/-- What has asked before agrees with its calls when the rest does. -/
theorem Tells.after (hseen : Seen seen) {Q : α → Prop} {x : Stateful σ α}
    {f : α → Stateful σ WriteResult} {s : σ} (hx : Asks log Q x)
    (hf : ∀ a, (Stateful.on x s).1 = .ok a → Q a →
      Tells log counts seen (f a) (Stateful.on x s).2) :
    Tells log counts seen (x >>= f) s := by
  obtain ⟨⟨n, hn⟩, hQ⟩ := hx s
  unfold Tells at hf ⊢
  rw [Stateful.on_bind]
  rcases hon : Stateful.on x s with ⟨e | a, s'⟩ <;> rw [hon] at hn hQ hf
  · exact ⟨_, hn, .idle n fun r hr => hseen.failure hr⟩
  · obtain ⟨events, hlog, htold⟩ := hf a rfl (hQ a rfl)
    refine ⟨_, ?_, htold.after n⟩
    rw [hlog, hn, List.append_assoc]

/-- An answer without a statement counts no row. -/
theorem Tells.known (hseen : Seen seen) {r : WriteResult} (hr : r.Unwritten) (s : σ) :
    Tells log counts seen (pure r) s := by
  refine ⟨[], (List.append_nil _).symm, .idle 0 fun r' hr' => ?_⟩
  rw [Stateful.on_pure, hseen.answer] at hr'
  exact Except.ok.inj hr' ▸ hr

/-- A check of the arguments makes no call. -/
theorem Tells.checked (hseen : Seen seen) {x : Except Error α} {f : α → Stateful σ WriteResult}
    {s : σ} (hf : ∀ a, x = .ok a → Tells log counts seen (f a) s) :
    Tells log counts seen (ofOutcome x >>= f) s := by
  cases x with
  | ok a => exact hf a rfl
  | error e => exact ⟨[], (List.append_nil _).symm, .idle 0 fun r hr => hseen.failure hr⟩

/-- What agrees with its calls once its failures are reported does so when they are. -/
theorem Tells.report {x : Stateful σ WriteResult} {s : σ}
    (h : Tells log counts WriteResult.degrade x s) :
    Tells log counts id (WriteResult.report x) s := by
  unfold Tells at h ⊢
  rw [WriteResult.on_report]
  rcases hon : Stateful.on x s with ⟨e | r, s'⟩ <;> rw [hon] at h
  · exact h
  · exact h

/-- **A statement at the end:** its result is answered when it succeeds. -/
theorem Tells.exec {connection : Connection (Stateful σ)} (h : Recorded log connection)
    {statement : Statement} {r : WriteResult} (hr : counts statement r) (s : σ) :
    Tells log counts WriteResult.degrade (connection.exec statement >>= fun _ => pure r) s := by
  unfold Tells
  rw [Stateful.on_bind]
  have hexec := h.exec statement s
  rcases hon : Stateful.on (connection.exec statement) s with ⟨e | u, s'⟩ <;> rw [hon] at hexec
  · obtain ⟨hok, -⟩ | ⟨⟨message, hfailed⟩, hlog⟩ := hexec
    · cases hok
    · cases hfailed
      exact ⟨_, hlog, .failed 0 statement message⟩
  · obtain ⟨-, hlog⟩ | ⟨⟨message, hfailed⟩, -⟩ := hexec
    · exact ⟨_, hlog, .done 0 hr⟩
    · cases hfailed

end Results

/-! ## 3. What a write may issue -/

section Countings

variable {M : Type → Type} (t : Table M)

/-- The delete of the row of a key. -/
inductive Deletes (primaryKey : String) (key : Value) : Counting
  | delete : Deletes primaryKey key (.delete t.name (.equals primaryKey key)) { deleted := 1 }

/-- An update of the row of a key. A patch in which nothing is true deletes the row. -/
inductive Updates (patch : Value) (primaryKey : String) (key : Value) : Counting
  | delete {fields : Fields} (hfields : patch.singleDocument "update" = .ok fields)
    (herase : fields.isErasure = true) :
    Updates patch primaryKey key (.delete t.name (.equals primaryKey key)) { deleted := 1 }
  | update {fields : Fields} (hfields : patch.singleDocument "update" = .ok fields)
    (herase : fields.isErasure = false) :
    Updates patch primaryKey key (.update t.name fields (.equals primaryKey key)) { replaced := 1 }

/-- A replacement of the row of a key, whether there is one or not. A document in which nothing is
    true deletes the row. -/
inductive Replaces (doc : Value) (primaryKey : String) (key : Value) : Counting
  | delete {fields : Fields} (hfields : doc.singleDocument "replace" = .ok fields)
    (herase : fields.isErasure = true) :
    Replaces doc primaryKey key (.delete t.name (.equals primaryKey key)) { deleted := 1 }
  | insert {fields : Fields} (hfields : doc.singleDocument "replace" = .ok fields)
    (herase : fields.isErasure = false) :
    Replaces doc primaryKey key (t.replacement fields primaryKey key) { inserted := 1 }
  | replace {fields : Fields} (hfields : doc.singleDocument "replace" = .ok fields)
    (herase : fields.isErasure = false) :
    Replaces doc primaryKey key (t.replacement fields primaryKey key) { replaced := 1 }

/-- The delete of a selection: as many rows are counted as there are keys in the list. -/
inductive DeletesAll : Counting
  | delete (primaryKey : String) {keys : List Value} (hkeys : keys ≠ []) :
    DeletesAll (.delete t.name (.isIn primaryKey keys)) { deleted := keys.length }

/-- The insert of a document, on its own or over a row. -/
inductive Inserts (primaryKey : String) (conflict : Conflict) (doc : Fields) : Counting
  | insert : Inserts primaryKey conflict doc (t.insertStatement primaryKey doc conflict)
      { inserted := 1 }
  | replace : Inserts primaryKey conflict doc (t.insertStatement primaryKey doc conflict)
      { replaced := 1 }

end Countings

/-- A statement for the row that a key resolves to. -/
def ForRow {σ : Type} (t : Table (Stateful σ)) (scope : Scope) (key : Operand (Stateful σ)) (s : σ)
    (counts : String → Value → Counting) : Counting :=
  fun statement r => ∃ primaryKey k,
    (Stateful.on (t.rowTarget scope key) s).1 = .ok (primaryKey, k) ∧
      counts primaryKey k statement r

/-! ## 4. One row -/

section Tables

variable {σ : Type} {log : σ → List Event} {t : Table (Stateful σ)}
  (h : Recorded log t.connection)

theorem unwritten_skipped : ({ skipped := 1 } : WriteResult).Unwritten := ⟨rfl, rfl, rfl⟩

theorem unwritten_unchanged : ({ unchanged := 1 } : WriteResult).Unwritten := ⟨rfl, rfl, rfl⟩

include h

theorem asks_fetchRow (primaryKey : String) (key : Value) :
    Anyway (fun _ => Asks log) (t.fetchRow primaryKey key) := by
  refine closed_asks.andThen (h.first _).asks fun row => ?_
  cases row with
  | none => exact closed_asks.known _
  | some row => exact closed_asks.andThen (closed_asks.ofOutcome _) fun _ => closed_asks.known _

section Rows

variable {scope : Scope} {key : Operand (Stateful σ)} (hkey : key.Tasks (Anyway fun _ => Asks log))

include hkey

theorem asks_rowTarget : Anyway (fun _ => Asks log) (t.rowTarget scope key) :=
  closed_asks.andThen (closed_asks.resolve key hkey scope) fun _ =>
    closed_asks.andThen (h.primaryKey _).asks fun _ => closed_asks.known _

/-- The delete of a row, whatever else its statement may count as. -/
theorem tells_deleteRow {counts : String → Value → Counting}
    (hcounts : ∀ primaryKey k,
      counts primaryKey k (.delete t.name (.equals primaryKey k)) { deleted := 1 }) (s : σ) :
    Tells log (ForRow t scope key s counts) id (t.deleteRow scope key) s := by
  refine Tells.report (Tells.after seen_reported (asks_rowTarget h hkey) ?_)
  rintro ⟨primaryKey, k⟩ htarget -
  refine Tells.after seen_reported (asks_fetchRow h primaryKey k) fun row _ _ => ?_
  cases row with
  | none => exact Tells.known seen_reported unwritten_skipped _
  | some row => exact Tells.exec h ⟨primaryKey, k, htarget, hcounts primaryKey k⟩ _

/-- **The update of a row.** -/
theorem tells_update (patch : Value) (s : σ) :
    Tells log (ForRow t scope key s (Updates t patch)) id (t.update scope key patch) s := by
  refine Tells.checked seen_raised fun fields hfields => ?_
  split_ifs with herase
  · exact tells_deleteRow h hkey (fun _ _ => .delete hfields herase) s
  · refine Tells.report (Tells.after seen_reported (asks_rowTarget h hkey) ?_)
    rintro ⟨primaryKey, k⟩ htarget -
    refine Tells.checked seen_reported fun _ _ => ?_
    refine Tells.after seen_reported (asks_fetchRow h primaryKey k) fun row _ _ => ?_
    cases row with
    | none => exact Tells.known seen_reported unwritten_skipped _
    | some old =>
      dsimp only
      split_ifs
      · exact Tells.known seen_reported unwritten_unchanged _
      · exact Tells.exec h ⟨primaryKey, k, htarget, .update hfields (by simpa using herase)⟩ _

/-- **The replacement of a row.** -/
theorem tells_replace (doc : Value) (s : σ) :
    Tells log (ForRow t scope key s (Replaces t doc)) id (t.replace scope key doc) s := by
  refine Tells.checked seen_raised fun fields hfields => ?_
  split_ifs with herase
  · exact tells_deleteRow h hkey (fun _ _ => .delete hfields herase) s
  · have herase : fields.isErasure = false := by simpa using herase
    refine Tells.report (Tells.after seen_reported (asks_rowTarget h hkey) ?_)
    rintro ⟨primaryKey, k⟩ htarget -
    refine Tells.checked seen_reported fun _ _ => ?_
    refine Tells.after seen_reported (asks_fetchRow h primaryKey k) fun row _ _ => ?_
    cases row with
    | none => exact Tells.exec h ⟨primaryKey, k, htarget, .insert hfields herase⟩ _
    | some old =>
      dsimp only
      split_ifs
      · exact Tells.known seen_reported unwritten_unchanged _
      · exact Tells.exec h ⟨primaryKey, k, htarget, .replace hfields herase⟩ _

end Rows

/-! ## 5. Selections -/

theorem asks_fetch (plan : StreamPlan (Stateful σ)) (primaryKey : String)
    (scope : Option RowTest) : Anyway (fun _ => Asks log) (t.fetch plan primaryKey scope) :=
  closed_asks.andThen (h.all _).asks fun _ => closed_asks.ofOutcome _

/-- The keys of a selection are deleted in one statement; without keys there is none. -/
theorem tells_deleteKeys (primaryKey : String) (keys : List Value) (s : σ) :
    Tells log (DeletesAll t) WriteResult.degrade (t.deleteKeys primaryKey keys) s := by
  cases keys with
  | nil => exact Tells.known seen_reported ⟨rfl, rfl, rfl⟩ s
  | cons key keys => exact Tells.exec h (.delete primaryKey (List.cons_ne_nil key keys)) s

section Streams

variable {scope : Scope} {keys : Option (KeyScope (Stateful σ))}
  {entries : List (Entry (Stateful σ))}
  (hkeys : ∀ k ∈ keys, OperandsTasks (Anyway fun _ => Asks log) k.keys)

include hkeys

theorem asks_target (plan : StreamPlan (Stateful σ)) :
    Anyway (fun _ => Asks log) (t.target scope keys plan) := by
  unfold Table.target
  split_ifs
  · exact closed_asks.known _
  · refine closed_asks.andThen (h.primaryKey _).asks fun primaryKey => ?_
    cases keys with
    | none => exact closed_asks.known _
    | some k =>
      have hvalues := closed_asks.resolveAll k.keys (hkeys k rfl) scope
      refine closed_asks.andThen hvalues fun values => ?_
      split
      · exact closed_asks.known _
      · exact closed_asks.known _

/-- **The delete of a selection.** -/
theorem tells_deleteStream (hentries : EntriesTasks (Anyway fun _ => Asks log) entries) (s : σ) :
    Tells log (DeletesAll t) id (t.deleteStream scope keys entries) s := by
  refine Tells.after seen_raised (closed_asks.planStream hentries scope) fun plan _ hrest => ?_
  refine Tells.after seen_raised (asks_target h hkeys plan) fun place _ _ => ?_
  cases place with
  | none => exact Tells.known seen_raised ⟨rfl, rfl, rfl⟩ _
  | some place =>
    refine Tells.report ?_
    dsimp only
    split_ifs
    · refine Tells.after seen_reported (h.all _).asks fun rows _ _ => ?_
      refine Tells.after seen_reported (closed_asks.known _) fun selected _ _ => ?_
      exact tells_deleteKeys h place.1 selected _
    · refine Tells.after seen_reported (asks_fetch h plan _ _) fun rows _ _ => ?_
      refine Tells.after seen_reported (closed_asks.finish hrest scope rows) fun answer _ _ => ?_
      refine Tells.checked seen_reported fun selected _ => ?_
      exact tells_deleteKeys h place.1 selected _

end Streams

/-! ## 6. Documents -/

/-- **The insert of a document,** whose failure is reported. -/
theorem tells_insertOne (primaryKey : String) (conflict : Conflict) (doc : Fields) (s : σ) :
    Tells log (Inserts t primaryKey conflict doc) WriteResult.degrade
      (t.insertOne primaryKey conflict doc) s := by
  have hstored : Anyway (fun _ => Asks log) (t.storedRow primaryKey doc conflict) := by
    unfold Table.storedRow
    split
    · exact closed_asks.known _
    · exact asks_fetchRow h _ _
    · exact closed_asks.known _
  refine Tells.after seen_reported hstored fun row _ _ => ?_
  cases row with
  | none => exact Tells.exec h .insert _
  | some old =>
    dsimp only
    split_ifs
    · exact Tells.known seen_reported unwritten_unchanged _
    · exact Tells.exec h .replace _

/-- Every document of an insert. -/
theorem runs_logged (primaryKey : String) (conflict : Conflict) {docs : List Fields} {s : σ}
    {run : Run σ} (hrun : run ∈ runs (t.insertOne primaryKey conflict) docs s) :
    Logged log (Inserts t primaryKey conflict run.doc) run.before (.ok run.told) run.after := by
  have htells := tells_insertOne h primaryKey conflict run.doc run.before
  have hon := on_of_mem_runs hrun
  unfold Tells at htells
  rw [hon] at htells
  obtain ⟨doc, before, outcome, after⟩ := run
  cases outcome with
  | ok r => exact htells
  | error e =>
    have hfault := ((endsIn_insertOne h.answers primaryKey conflict doc) before).2 e
      (congrArg Prod.fst hon)
    rw [WriteResult.degrade_of_fault hfault] at htells
    exact htells

end Tables

/-! ## 7. All writes -/

section All

variable {σ : Type} (log : σ → List Event) (t : Table (Stateful σ))

/-- **The writes of a table tell what became of their statements,** on every state, whatever the
    calls answer and whichever of them fail. Operands may run tasks, on this connection too, if these
    issue no statement. -/
structure WritesTold : Prop where
  /-- An update of a row issues one statement at most, for that row. -/
  update (scope : Scope) (key : Operand (Stateful σ))
    (hkey : key.Tasks (Anyway fun _ => Asks log)) (patch : Value) (s : σ) :
    Logged log (ForRow t scope key s (Updates t patch)) s
      (Stateful.on (t.update scope key patch) s).1 (Stateful.on (t.update scope key patch) s).2
  /-- So does a replacement of a row. -/
  replace (scope : Scope) (key : Operand (Stateful σ))
    (hkey : key.Tasks (Anyway fun _ => Asks log)) (doc : Value) (s : σ) :
    Logged log (ForRow t scope key s (Replaces t doc)) s
      (Stateful.on (t.replace scope key doc) s).1 (Stateful.on (t.replace scope key doc) s).2
  /-- So does the delete of a row. -/
  delete (scope : Scope) (key : Operand (Stateful σ))
    (hkey : key.Tasks (Anyway fun _ => Asks log)) (s : σ) :
    Logged log (ForRow t scope key s (Deletes t)) s
      (Stateful.on (t.deleteRow scope key) s).1 (Stateful.on (t.deleteRow scope key) s).2
  /-- The delete of a selection issues one statement at most, for all its keys. -/
  deleteStream (scope : Scope) (keys : Option (KeyScope (Stateful σ)))
    (entries : List (Entry (Stateful σ)))
    (hkeys : ∀ k ∈ keys, OperandsTasks (Anyway fun _ => Asks log) k.keys)
    (hentries : EntriesTasks (Anyway fun _ => Asks log) entries) (s : σ) :
    Logged log (DeletesAll t) s (Stateful.on (t.deleteStream scope keys entries) s).1
      (Stateful.on (t.deleteStream scope keys entries) s).2
  /-- An insert of anything but documents fails before any call. -/
  refused (docs : Value) (choice : Option Conflict) (s : σ) (e : Error)
    (hdocs : docs.documents = .error e) : Stateful.on (t.insert docs choice) s = (.error e, s)
  /-- An insert that is not told the name of the primary key makes no other call. -/
  unnamed (docs : Value) (list : List Fields) (hdocs : docs.documents = .ok list)
    (choice : Option Conflict) (s : σ) (e : Error)
    (hname : (Stateful.on (t.connection.primaryKey t.name) s).1 = .error e) :
    (Stateful.on (t.insert docs choice) s).1 = .ok (.failure e.message) ∧
      log (Stateful.on (t.insert docs choice) s).2 = log s ++ [.query]
  /-- An insert answers the sum of what its documents come to, and each of them issues one statement
      at most. -/
  insert (docs : Value) (list : List Fields) (hdocs : docs.documents = .ok list)
    (choice : Option Conflict) (s : σ) (primaryKey : String)
    (hname : (Stateful.on (t.connection.primaryKey t.name) s).1 = .ok primaryKey) :
    let conflict := t.config.conflictFor choice
    let write := t.insertOne primaryKey conflict
    let s₀ := (Stateful.on (t.connection.primaryKey t.name) s).2
    log s₀ = log s ++ [.query] ∧
      Stateful.on (t.insert docs choice) s
        = (.ok (((runs write list s₀).map Run.told).foldl WriteResult.merge {}),
          after write list s₀) ∧
      ∀ run ∈ runs write list s₀,
        Logged log (Inserts t primaryKey conflict run.doc) run.before (.ok run.told) run.after

/-- **All writes tell what became of their statements,** on a connection whose calls are logged. -/
theorem writes_told (h : Recorded log t.connection) : WritesTold log t where
  update _ _ hkey := tells_update h hkey
  replace _ _ hkey := tells_replace h hkey
  delete _ _ hkey := tells_deleteRow h hkey fun _ _ => .delete
  deleteStream _ _ _ hkeys hentries := tells_deleteStream h hkeys hentries
  refused docs choice s e hdocs := by
    rw [Table.insert, WriteResult.insertAfter, hdocs]
    rfl
  unnamed docs list hdocs choice s e hname := by
    obtain ⟨hlog, hstorage⟩ := h.primaryKey t.name s
    obtain ⟨message, rfl⟩ := hstorage e hname
    rw [Table.insert, WriteResult.on_insertAfter_of_error _ hdocs hname rfl]
    exact ⟨rfl, hlog⟩
  insert docs list hdocs choice s primaryKey hname := by
    have hwrite (doc : Fields) :
        Batch.Answers (t.insertOne primaryKey (t.config.conflictFor choice) doc) :=
      fun s => ⟨fun _ _ => trivial, (endsIn_insertOne h.answers primaryKey _ doc s).2⟩
    refine ⟨(h.primaryKey t.name s).1, ?_, fun run hrun => runs_logged h primaryKey _ hrun⟩
    rw [Table.insert, WriteResult.on_insertAfter_of_ok _ hdocs hname]
    exact on_reportEach hwrite list {} _

end All

/-! ## 8. Recorders -/

section Recorders

variable {σ : Type}

/-- A call, and an event that is noted after it. -/
def noted {α : Type} (event : Except Error α → Event) (x : Stateful σ α) :
    Stateful (σ × List Event) α :=
  ExceptT.mk fun p =>
    pure ((Stateful.on x p.1).1, (Stateful.on x p.1).2, p.2 ++ [event (Stateful.on x p.1).1])

/-- A connection whose calls are noted. -/
def Connection.recorded (c : Connection (Stateful σ)) : Connection (Stateful (σ × List Event)) where
  first query := noted (fun _ => .query) (c.first query)
  all query := noted (fun _ => .query) (c.all query)
  exec statement := noted (fun outcome => .exec statement outcome.toBool) (c.exec statement)
  primaryKey table := noted (fun _ => .query) (c.primaryKey table)

/-- **A recorder logs the calls of a connection** whose failures can be observed. -/
theorem Observed.recorded {failed : σ → Nat} {c : Connection (Stateful σ)} (h : Observed failed c) :
    Recorded Prod.snd c.recorded := by
  have hquery {α : Type} {x : Stateful σ α} (hx : Counted failed x) :
      Queries Prod.snd (noted (fun _ => .query) x) := by
    refine fun s => ⟨rfl, fun e he => ?_⟩
    rcases hx s.1 with ⟨⟨a, ha⟩, -⟩ | ⟨⟨message, hfailed⟩, -⟩
    · cases ha.symm.trans he
    · exact ⟨message, Except.error.inj (he.symm.trans hfailed)⟩
  refine ⟨fun query => hquery (h.first query), fun query => hquery (h.all query),
    fun table => hquery (h.primaryKey table), fun statement s => ?_⟩
  rcases h.exec statement s.1 with ⟨⟨u, hok⟩, -⟩ | ⟨⟨message, hfailed⟩, -⟩
  · refine Or.inl ⟨hok, ?_⟩
    exact congrArg (fun outcome => s.2 ++ [.exec statement (Except.toBool outcome)]) hok
  · refine Or.inr ⟨⟨message, hfailed⟩, ?_⟩
    exact congrArg (fun outcome => s.2 ++ [.exec statement (Except.toBool outcome)]) hfailed

end Recorders

/-- The table of things, on a recorded connection. -/
def recordedThings : Table (Stateful (Script × List Event)) :=
  ⟨(Script.connection .sqlite "id").recorded, {}, "things", []⟩

/-- A connection whose first query answers a row. -/
def holding : Script where
  results := [[[("id", .string "a")]]]

/-- The delete of a row that is stored counts it, and issues the statement that deletes it. -/
theorem recordedThings_told :
    let outcome := Stateful.on (recordedThings.deleteRow [] (.literal (.string "a"))) (holding, [])
    outcome.1 = .ok { deleted := 1 } ∧ ∃ n, outcome.2.2 = List.replicate n .query
      ++ [.exec (.delete "things" (.equals "id" (.string "a"))) true] := by
  intro outcome
  have hdeleted : outcome.1.toOption = some { deleted := 1 } := by decide +kernel
  have hok : outcome.1 = .ok { deleted := 1 } := ok_of_toOption hdeleted
  have htold := writes_told Prod.snd recordedThings (script_observed .sqlite "id").recorded
  obtain ⟨events, hlog, htold⟩ := htold.delete [] (.literal (.string "a")) trivial (holding, [])
  change Told _ events outcome.1 at htold
  rw [hok] at htold
  generalize hr : Except.ok _ = answered at htold
  cases htold with
  | idle n h => cases (h _ hr.symm).deleted
  | failed n statement message => cases hr
  | done n h =>
    obtain ⟨primaryKey, k, htarget, hdelete⟩ := h
    cases hdelete
    cases htarget
    exact ⟨hok, n, hlog⟩

end Sql

end QueryAlgebra
