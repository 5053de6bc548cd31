import QueryAlgebra.Proofs.Sql.Tasks
import QueryAlgebra.Proofs.Table.Reporting
import QueryAlgebra.Sql.Table

/-!
# Failures of a connection

A connection may answer anything, and any of its calls may fail at any time. What a write makes of
that is the same for `insert`, `update`, `replace` and the delete of a row: a failed call is found in
the result, and no fault of the storage is raised (`Reports`).

* `Forwards`: a computation that fails as soon as a call does. A queue is so when its tasks are, and a
  forwarding computation that is reported reports.
* `WritesReport`: all writes of a table. The delete of a selection asks for the name of the primary
  key before it reports, and so raises the failure of that one call.
-/

namespace QueryAlgebra

namespace Sql

/-! ## 1. Calls -/

section Calls

variable {σ α β : Type} (failed : σ → Nat)

/-- A call is answered, or it fails with a fault of the storage and counts as failed. -/
def Counted (x : Stateful σ α) : Prop :=
  ∀ s, ((∃ a, (Stateful.on x s).1 = .ok a) ∧ failed (Stateful.on x s).2 = failed s) ∨
    ((∃ message, (Stateful.on x s).1 = .error (.storage message)) ∧
      failed (Stateful.on x s).2 = failed s + 1)

/-- **What is assumed of a connection:** its calls are answered or fail, and those that fail are
    counted. What they answer is left open, and so is which of them fail. -/
structure Observed (connection : Connection (Stateful σ)) : Prop where
  first (query : Statement) : Counted failed (connection.first query)
  all (query : Statement) : Counted failed (connection.all query)
  exec (statement : Statement) : Counted failed (connection.exec statement)
  primaryKey (table : String) : Counted failed (connection.primaryKey table)

/-- **A computation fails as soon as a call does,** and then with a fault of the storage: while it
    succeeds, or fails for another cause, no call has failed. What it answers has a property. -/
def Forwards (Q : α → Prop) (x : Stateful σ α) : Prop :=
  ∀ s, (∀ a, (Stateful.on x s).1 = .ok a → Q a ∧ failed (Stateful.on x s).2 = failed s) ∧
    ∀ e, (Stateful.on x s).1 = .error e → e.isStorageFault = false →
      failed (Stateful.on x s).2 = failed s

/-- A computation raises faults of the storage only, and while it succeeds no call has failed. -/
def Steady (x : Stateful σ α) : Prop :=
  ∀ s, (∀ a, (Stateful.on x s).1 = .ok a → failed (Stateful.on x s).2 = failed s) ∧
    ∀ e, (Stateful.on x s).1 = .error e → e.isStorageFault = true

/-- **A write reports on a state:** it raises no fault of the storage, and when a call has failed it
    answers a result with a failure. -/
structure Reports (x : Stateful σ WriteResult) (s : σ) : Prop where
  raised (e : Error) (h : (Stateful.on x s).1 = .error e) : e.isStorageFault = false
  reported (h : failed (Stateful.on x s).2 ≠ failed s) :
    ∃ r, (Stateful.on x s).1 = .ok r ∧ r.Failed

variable {failed}

theorem closed_forwards : Closed (M := Stateful σ) (fun _ => Forwards failed) where
  pure h s := ⟨fun _ ha => ⟨Except.ok.inj ha ▸ h, rfl⟩, fun _ he => by cases he⟩
  throw e s := ⟨fun _ ha => (by cases ha), fun _ _ _ => rfl⟩
  bind {_ _ _ _ x f} hx hf s := by
    obtain ⟨hok, herror⟩ := hx s
    rw [Stateful.on_bind]
    rcases hon : Stateful.on x s with ⟨e | a, s'⟩ <;> rw [hon] at hok herror
    · refine ⟨fun _ ha => (by cases ha), fun e' he' hfault => ?_⟩
      exact herror e rfl (Except.error.inj he' ▸ hfault)
    · obtain ⟨hQ, hsame⟩ := hok a rfl
      obtain ⟨hok', herror'⟩ := hf a hQ s'
      refine ⟨fun b hb => ?_, fun e he hfault => (herror' e he hfault).trans hsame⟩
      obtain ⟨hR, hsame'⟩ := hok' b hb
      exact ⟨hR, hsame'.trans hsame⟩

theorem Steady.forwards {x : Stateful σ α} (h : Steady failed x) :
    Anyway (fun _ => Forwards failed) x := by
  intro s
  obtain ⟨hok, herror⟩ := h s
  refine ⟨fun a ha => ⟨trivial, hok a ha⟩, fun e he hfault => ?_⟩
  rw [herror e he] at hfault
  cases hfault

theorem Steady.pure (a : α) : Steady failed (pure a : Stateful σ α) :=
  fun _ => ⟨fun _ _ => rfl, fun _ he => by cases he⟩

theorem Steady.bind {x : Stateful σ α} {f : α → Stateful σ β} (hx : Steady failed x)
    (hf : ∀ a, Steady failed (f a)) : Steady failed (x >>= f) := by
  intro s
  obtain ⟨hok, herror⟩ := hx s
  rw [Stateful.on_bind]
  rcases hon : Stateful.on x s with ⟨e | a, s'⟩ <;> rw [hon] at hok herror
  · exact ⟨fun _ ha => (by cases ha), fun e' he' => Except.error.inj he' ▸ herror e rfl⟩
  · obtain ⟨hok', herror'⟩ := hf a s'
    exact ⟨fun b hb => (hok' b hb).trans (hok a rfl), herror'⟩

theorem Counted.steady {x : Stateful σ α} (h : Counted failed x) : Steady failed x := by
  intro s
  rcases h s with ⟨⟨a, ha⟩, hsame⟩ | ⟨⟨message, he⟩, -⟩
  · refine ⟨fun _ _ => hsame, fun e he => ?_⟩
    rw [ha] at he
    cases he
  · refine ⟨fun a ha => ?_, fun e he' => ?_⟩
    · rw [he] at ha
      cases ha
    · rw [he] at he'
      cases he'
      rfl

theorem Steady.ofOutcome {x : Except Error α} (h : ∀ e, x = .error e → e.isStorageFault = true) :
    Steady failed (ofOutcome x : Stateful σ α) := by
  intro s
  rw [Stateful.on_ofOutcome]
  exact ⟨fun _ _ => rfl, h⟩

/-- **A forwarding computation that is reported reports.** -/
theorem Forwards.report {Q : WriteResult → Prop} {x : Stateful σ WriteResult}
    (h : Forwards failed Q x) (s : σ) : Reports failed (WriteResult.report x) s := by
  refine ⟨fun e he => isStorageFault_report he, fun hfailed => ?_⟩
  obtain ⟨hok, herror⟩ := h s
  rw [WriteResult.on_report] at hfailed ⊢
  rcases hon : Stateful.on x s with ⟨e | r, s'⟩ <;> rw [hon] at hok herror hfailed
  · cases hfault : e.isStorageFault with
    | true => exact ⟨_, WriteResult.degrade_of_fault hfault, WriteResult.failed_failure _⟩
    | false => exact absurd (herror e rfl hfault) hfailed
  · exact absurd (hok r rfl).2 hfailed

/-- **What raises faults of the storage only, and is reported, always answers.** -/
theorem Steady.report {x : Stateful σ WriteResult} (h : Steady failed x) (s : σ) :
    ∃ r, (Stateful.on (WriteResult.report x) s).1 = .ok r ∧
      (failed (Stateful.on (WriteResult.report x) s).2 ≠ failed s → r.Failed) := by
  obtain ⟨hok, herror⟩ := h s
  rw [WriteResult.on_report]
  rcases hon : Stateful.on x s with ⟨e | r, s'⟩ <;> rw [hon] at hok herror
  · exact ⟨_, WriteResult.degrade_of_fault (herror e rfl), fun _ => WriteResult.failed_failure _⟩
  · exact ⟨r, rfl, fun hfailed => absurd (hok r rfl) hfailed⟩

theorem Reports.of_answer {x : Stateful σ WriteResult} {s : σ} {r : WriteResult}
    (h : (Stateful.on x s).1 = .ok r)
    (hr : failed (Stateful.on x s).2 ≠ failed s → r.Failed) : Reports failed x s := by
  refine ⟨fun e he => ?_, fun hfailed => ⟨r, h, hr hfailed⟩⟩
  rw [h] at he
  cases he

theorem Reports.pure (r : WriteResult) (s : σ) : Reports failed (pure r) s :=
  .of_answer rfl fun hfailed => absurd rfl hfailed

/-- What reports after an answer reports from the beginning, if no call has failed before. -/
theorem Reports.after {x : Stateful σ α} {f : α → Stateful σ WriteResult} {s : σ} {a : α}
    (hx : (Stateful.on x s).1 = .ok a) (hsame : failed (Stateful.on x s).2 = failed s)
    (hf : Reports failed (f a) (Stateful.on x s).2) : Reports failed (x >>= f) s := by
  have hon := Stateful.on_bind_of_ok (f := f) hx
  refine ⟨fun e he => hf.raised e (hon ▸ he), fun hfailed => hon ▸ hf.reported ?_⟩
  rwa [hsame, ← hon]

/-- A write reports when it does after a check of its arguments. -/
theorem Reports.checked {x : Except Error α} {f : α → Stateful σ WriteResult} {s : σ}
    (hx : ∀ e, x = .error e → e.isStorageFault = false) (hf : ∀ a, Reports failed (f a) s) :
    Reports failed (ofOutcome x >>= f) s := by
  cases x with
  | ok a => exact hf a
  | error e =>
    refine ⟨fun e' he' => ?_, fun hfailed => absurd rfl hfailed⟩
    obtain rfl : e = e' := Except.error.inj he'
    exact hx e rfl

/-- **The loop of an insert answers a result,** and one with a failure when a call has failed. -/
theorem Steady.reportEach {write : Fields → Stateful σ WriteResult}
    (hwrite : ∀ doc, Steady failed (write doc)) (docs : List Fields) (total : WriteResult) (s : σ) :
    ∃ r, (Stateful.on (WriteResult.reportEach write total docs) s).1 = .ok r ∧
      (total.Failed → r.Failed) ∧
      (failed (Stateful.on (WriteResult.reportEach write total docs) s).2 ≠ failed s →
        r.Failed) := by
  induction docs generalizing total s with
  | nil => exact ⟨total, rfl, id, fun hfailed => absurd rfl hfailed⟩
  | cons doc docs ih =>
    rw [WriteResult.reportEach, Stateful.on_bind]
    obtain ⟨r, hr, hfirst⟩ := (hwrite doc).report s
    rcases hon : Stateful.on (WriteResult.report (write doc)) s with ⟨e | r', s'⟩ <;>
      rw [hon] at hr hfirst
    · cases hr
    · obtain rfl := Except.ok.inj hr
      obtain ⟨all, hall, hbefore, hlater⟩ := ih (total.merge r') s'
      refine ⟨all, hall, fun htotal => hbefore (htotal.merge_left r'), fun hfailed => ?_⟩
      -- the call that has failed is one of this document, or one of a later document
      by_cases hsame : failed s' = failed s
      · exact hlater (hsame ▸ hfailed)
      · exact hbefore ((hfirst hsame).merge_right total)

/-- An insert reports when its header is one call, and its writes raise faults of the storage only. -/
theorem Reports.insertAfter {η : Type} {header : Stateful σ η}
    {write : η → Fields → Stateful σ WriteResult} (hheader : Counted failed header)
    (hwrite : ∀ read doc, Steady failed (write read doc)) (docs : Value) (s : σ) :
    Reports failed (WriteResult.insertAfter header write docs) s := by
  refine Reports.checked (fun e => isStorageFault_documents) fun docs => ?_
  have hattempt := Stateful.on_attempt header s
  -- the failure of this one call is caught where it is made, before the documents are written
  rcases hheader s with ⟨⟨read, hread⟩, hsame⟩ | ⟨⟨message, he⟩, -⟩
  · rw [hread] at hattempt
    refine Reports.after (congrArg Prod.fst hattempt) ?_ ?_
    · rw [hattempt]
      exact hsame
    · rw [hattempt]
      obtain ⟨r, hr, -, hfailed⟩ := Steady.reportEach (hwrite read) docs {} (Stateful.on header s).2
      exact .of_answer hr hfailed
  · rw [he] at hattempt
    refine Reports.of_answer (r := .failure (Error.storage message).message) ?_
      fun _ => WriteResult.failed_failure _
    rw [Stateful.on_bind, hattempt]
    rfl

end Calls

/-! ## 2. Rows -/

/-- A column that cannot be decoded is a fault of what is stored. -/
theorem isStorageFault_decode {type : FieldType} {stored : Value} {e : Error}
    (h : SchemaField.decode type stored = .error e) : e.isStorageFault = true := by
  unfold SchemaField.decode at h
  split at h
  · cases h
  · split at h
    any_goals cases h
    split at h
    · cases h
    · cases h
      rfl

theorem isStorageFault_decodeFields {schema : Schema} {row : Fields} {e : Error}
    (h : schema.decodeFields row = .error e) : e.isStorageFault = true := by
  induction row with
  | nil => cases h
  | cons f rest ih =>
    obtain ⟨name, stored⟩ := f
    have hrest : ∀ {v : Value},
        (do return (name, v) :: (← schema.decodeFields rest) : Except Error Fields) = .error e →
          e.isStorageFault = true := fun hv => by
      obtain hv | ⟨_, -, hv⟩ := bind_eq_error.mp hv
      · exact ih hv
      · cases hv
    unfold Schema.decodeFields at h
    dsimp only at h
    split at h
    · obtain h | ⟨_, -, h⟩ := bind_eq_error.mp h
      · exact isStorageFault_decode h
      · exact hrest h
    · exact hrest h

theorem isStorageFault_decodeRow {schema : Schema} {row : Fields} {e : Error}
    (h : schema.decodeRow row = .error e) : e.isStorageFault = true := by
  obtain h | ⟨_, -, h⟩ := bind_eq_error.mp h
  · exact isStorageFault_decodeFields h
  · cases h

section Tables

variable {σ : Type} {failed : σ → Nat} {t : Table (Stateful σ)}
  (h : Observed failed t.connection)

include h

theorem steady_fetchRow (primaryKey : String) (key : Value) :
    Steady failed (t.fetchRow primaryKey key) := by
  refine (h.first _).steady.bind fun row => ?_
  cases row with
  | none => exact Steady.pure _
  | some row => exact (Steady.ofOutcome fun e => isStorageFault_decodeRow).bind fun _ => Steady.pure _

/-- A statement, and the result that is answered when it succeeds. -/
theorem steady_exec (statement : Statement) (r : WriteResult) :
    Steady failed (t.connection.exec statement >>= fun _ => pure r) :=
  (h.exec statement).steady.bind fun _ => Steady.pure r

theorem forwards_fetch (plan : StreamPlan (Stateful σ)) (primaryKey : String)
    (scope : Option RowTest) :
    Anyway (fun _ => Forwards failed) (t.fetch plan primaryKey scope) :=
  closed_forwards.andThen (h.all _).steady.forwards fun _ => closed_forwards.ofOutcome _

theorem forwards_deleteAt (primaryKey : String) (key : Value) :
    Anyway (fun _ => Forwards failed) (t.deleteAt primaryKey key) := by
  refine closed_forwards.andThen (steady_fetchRow h primaryKey key).forwards fun row => ?_
  cases row with
  | none => exact closed_forwards.known _
  | some row => exact (steady_exec h _ _).forwards

theorem forwards_updateAt (patch : Fields) (primaryKey : String) (key : Value) :
    Anyway (fun _ => Forwards failed) (t.updateAt patch primaryKey key) := by
  refine closed_forwards.andThen (closed_forwards.ofOutcome _) fun _ => ?_
  refine closed_forwards.andThen (steady_fetchRow h primaryKey key).forwards fun row => ?_
  cases row with
  | none => exact closed_forwards.known _
  | some old =>
    dsimp only
    split_ifs
    · exact closed_forwards.known _
    · exact (steady_exec h _ _).forwards

theorem forwards_replaceAt (doc : Fields) (primaryKey : String) (key : Value) :
    Anyway (fun _ => Forwards failed) (t.replaceAt doc primaryKey key) := by
  refine closed_forwards.andThen (closed_forwards.ofOutcome _) fun _ => ?_
  refine closed_forwards.andThen (steady_fetchRow h primaryKey key).forwards fun row => ?_
  cases row with
  | none => exact (steady_exec h _ _).forwards
  | some old =>
    dsimp only
    split_ifs
    · exact closed_forwards.known _
    · exact (steady_exec h _ _).forwards

section Rows

variable {scope : Scope} {key : Operand (Stateful σ)}
  (hkey : key.Tasks (Anyway fun _ => Forwards failed))

include hkey

theorem forwards_rowTarget : Anyway (fun _ => Forwards failed) (t.rowTarget scope key) :=
  closed_forwards.andThen (closed_forwards.resolve key hkey scope) fun _ =>
    closed_forwards.andThen (h.primaryKey _).steady.forwards fun _ => closed_forwards.known _

theorem reports_deleteRow (s : σ) : Reports failed (t.deleteRow scope key) s :=
  Forwards.report (closed_forwards.andThen (forwards_rowTarget h hkey) fun target =>
    forwards_deleteAt h target.1 target.2) s

/-- **An update reports.** -/
theorem reports_update (patch : Value) (s : σ) : Reports failed (t.update scope key patch) s := by
  refine Reports.checked (fun e => isStorageFault_singleDocument) fun patch => ?_
  split_ifs
  · exact reports_deleteRow h hkey s
  · exact Forwards.report (closed_forwards.andThen (forwards_rowTarget h hkey) fun target =>
      forwards_updateAt h patch target.1 target.2) s

/-- **A replacement reports.** -/
theorem reports_replace (doc : Value) (s : σ) : Reports failed (t.replace scope key doc) s := by
  refine Reports.checked (fun e => isStorageFault_singleDocument) fun doc => ?_
  split_ifs
  · exact reports_deleteRow h hkey s
  · exact Forwards.report (closed_forwards.andThen (forwards_rowTarget h hkey) fun target =>
      forwards_replaceAt h doc target.1 target.2) s

end Rows

/-! ## 3. Inserting -/

theorem steady_insertOne (primaryKey : String) (conflict : Conflict) (doc : Fields) :
    Steady failed (t.insertOne primaryKey conflict doc) := by
  have hstored : Steady failed (t.storedRow primaryKey doc conflict) := by
    unfold Table.storedRow
    split
    · exact Steady.pure _
    · exact steady_fetchRow h _ _
    · exact Steady.pure _
  refine hstored.bind fun row => ?_
  cases row with
  | none => exact steady_exec h _ _
  | some old =>
    dsimp only
    split_ifs
    · exact Steady.pure _
    · exact steady_exec h _ _

/-- **An insert reports.** -/
theorem reports_insert (docs : Value) (choice : Option Conflict) (s : σ) :
    Reports failed (t.insert docs choice) s :=
  Reports.insertAfter (h.primaryKey t.name) (fun _ => steady_insertOne h _ _) docs s

/-! ## 4. Deleting a selection -/

theorem forwards_target {scope : Scope} {keys : Option (KeyScope (Stateful σ))}
    (hkeys : ∀ k ∈ keys, OperandsTasks (Anyway fun _ => Forwards failed) k.keys)
    (plan : StreamPlan (Stateful σ)) :
    Anyway (fun _ => Forwards failed) (t.target scope keys plan) := by
  unfold Table.target
  split_ifs
  · exact closed_forwards.known _
  · refine closed_forwards.andThen (h.primaryKey _).steady.forwards fun primaryKey => ?_
    cases keys with
    | none => exact closed_forwards.known _
    | some k =>
      have hvalues := closed_forwards.resolveAll k.keys (hkeys k rfl) scope
      refine closed_forwards.andThen hvalues fun values => ?_
      split
      · exact closed_forwards.known _
      · exact closed_forwards.known _

theorem forwards_deleteKeys (primaryKey : String) (keys : List Value) :
    Anyway (fun _ => Forwards failed) (t.deleteKeys primaryKey keys) := by
  unfold Table.deleteKeys
  split
  · exact closed_forwards.known _
  · exact (steady_exec h _ _).forwards

section Streams

variable {scope : Scope} {keys : Option (KeyScope (Stateful σ))} {entries : List (Entry (Stateful σ))}
  (hkeys : ∀ k ∈ keys, OperandsTasks (Anyway fun _ => Forwards failed) k.keys)
  (hentries : EntriesTasks (Anyway fun _ => Forwards failed) entries) {s : σ}
  {plan : StreamPlan (Stateful σ)} (hplan : (Stateful.on (planStream scope entries) s).1 = .ok plan)

include hkeys hentries hplan

/-- **The delete of a selection reports once it knows where to look.** -/
theorem reports_deleteStream {place : Option (String × Option RowTest)}
    (hplace : (Stateful.on (t.target scope keys plan)
      (Stateful.on (planStream scope entries) s).2).1 = .ok place) :
    Reports failed (t.deleteStream scope keys entries) s := by
  obtain ⟨hrest, hsame⟩ := (closed_forwards.planStream hentries scope s).1 plan hplan
  have hsame' := ((forwards_target h hkeys plan _).1 place hplace).2
  refine Reports.after hplan hsame (Reports.after hplace hsame' ?_)
  cases place with
  | none => exact Reports.pure _ _
  | some place =>
    refine Forwards.report (Q := fun _ => True) ?_ _
    dsimp only
    split_ifs
    · refine closed_forwards.andThen (h.all _).steady.forwards fun rows => ?_
      exact closed_forwards.andThen (closed_forwards.known _) fun _ => forwards_deleteKeys h _ _
    · refine closed_forwards.andThen (forwards_fetch h plan _ _) fun rows => ?_
      refine closed_forwards.andThen (closed_forwards.finish hrest scope rows) fun _ => ?_
      exact closed_forwards.andThen (closed_forwards.ofOutcome _) fun _ => forwards_deleteKeys h _ _

end Streams

end Tables

section Targets

variable {σ : Type} {t : Table (Stateful σ)} {scope : Scope} {keys : Option (KeyScope (Stateful σ))}
  {entries : List (Entry (Stateful σ))} {plan : StreamPlan (Stateful σ)} {s : σ}

/-- A delete of a selection finds where to look when the name of the primary key is answered, and the
    keys resolve. -/
theorem target_answers (hname : plan.kill = true ∨
      ∃ primaryKey, (Stateful.on (t.connection.primaryKey t.name) s).1 = .ok primaryKey)
    (hvalues : ∀ k ∈ keys, ∃ values, (Stateful.on (resolveAll scope k.keys)
      (Stateful.on (t.connection.primaryKey t.name) s).2).1 = .ok values) :
    ∃ place, (Stateful.on (t.target scope keys plan) s).1 = .ok place := by
  unfold Table.target
  split_ifs with hkill
  · exact ⟨none, rfl⟩
  · obtain ⟨primaryKey, hname⟩ := hname.resolve_left hkill
    rw [Stateful.on_bind_of_ok hname]
    cases keys with
    | none => exact ⟨_, rfl⟩
    | some k =>
      obtain ⟨values, hvalues⟩ := hvalues k rfl
      dsimp only
      rw [Stateful.on_bind_of_ok hvalues]
      split
      · exact ⟨_, rfl⟩
      · exact ⟨_, rfl⟩

/-- **A delete of a selection raises the failure to name the primary key.** -/
theorem deleteStream_raises {e : Error}
    (hplan : (Stateful.on (planStream scope entries) s).1 = .ok plan) (hkill : plan.kill = false)
    (he : (Stateful.on (t.connection.primaryKey t.name)
      (Stateful.on (planStream scope entries) s).2).1 = .error e) :
    (Stateful.on (t.deleteStream scope keys entries) s).1 = .error e := by
  have htarget : (Stateful.on (t.target scope keys plan)
      (Stateful.on (planStream scope entries) s).2).1 = .error e := by
    unfold Table.target
    rw [if_neg (by simp [hkill]), Stateful.on_bind_of_error he]
  unfold Table.deleteStream
  rw [Stateful.on_bind_of_ok hplan, Stateful.on_bind_of_error htarget]

end Targets

/-! ## 5. All writes -/

section All

variable {σ : Type} (failed : σ → Nat) (t : Table (Stateful σ))

/-- **The writes of a table report the failures of its connection,** on every state, whatever the calls
    answer and whichever of them fail. Operands may run tasks, on this connection too, if these forward
    its failures. -/
structure WritesReport : Prop where
  /-- An insert reports. -/
  insert (docs : Value) (choice : Option Conflict) (s : σ) :
    Reports failed (t.insert docs choice) s
  /-- An update of a row reports. -/
  update (scope : Scope) (key : Operand (Stateful σ))
    (hkey : key.Tasks (Anyway fun _ => Forwards failed)) (patch : Value) (s : σ) :
    Reports failed (t.update scope key patch) s
  /-- A replacement of a row reports. -/
  replace (scope : Scope) (key : Operand (Stateful σ))
    (hkey : key.Tasks (Anyway fun _ => Forwards failed)) (doc : Value) (s : σ) :
    Reports failed (t.replace scope key doc) s
  /-- The delete of a row reports. -/
  delete (scope : Scope) (key : Operand (Stateful σ))
    (hkey : key.Tasks (Anyway fun _ => Forwards failed)) (s : σ) :
    Reports failed (t.deleteRow scope key) s
  /-- The delete of all rows, or of those with the given keys, asks for the name of the primary key
      unless its filters are false for every row. It raises the failure of that call; otherwise it
      reports. -/
  deleteStream (scope : Scope) (keys : Option (KeyScope (Stateful σ)))
    (entries : List (Entry (Stateful σ)))
    (hkeys : ∀ k ∈ keys, OperandsTasks (Anyway fun _ => Forwards failed) k.keys)
    (hentries : EntriesTasks (Anyway fun _ => Forwards failed) entries) (s : σ)
    (plan : StreamPlan (Stateful σ))
    (hplan : (Stateful.on (planStream scope entries) s).1 = .ok plan) :
    let asked := Stateful.on (t.connection.primaryKey t.name)
      (Stateful.on (planStream scope entries) s).2
    (∀ e, plan.kill = false → asked.1 = .error e →
        (Stateful.on (t.deleteStream scope keys entries) s).1 = .error e) ∧
      ((plan.kill = true ∨ ∃ primaryKey, asked.1 = .ok primaryKey) →
        (∀ k ∈ keys, ∃ values, (Stateful.on (resolveAll scope k.keys) asked.2).1 = .ok values) →
        Reports failed (t.deleteStream scope keys entries) s)

/-- **All writes report on a connection whose failures can be observed.** -/
theorem writes_report (h : Observed failed t.connection) : WritesReport failed t where
  insert := reports_insert h
  update _ _ hkey := reports_update h hkey
  replace _ _ hkey := reports_replace h hkey
  delete _ _ hkey := reports_deleteRow h hkey
  deleteStream scope keys entries hkeys hentries s plan hplan := by
    refine ⟨fun e hkill he => deleteStream_raises hplan hkill he, fun hname hvalues => ?_⟩
    obtain ⟨place, hplace⟩ := target_answers hname hvalues
    exact reports_deleteStream h hkeys hentries hplan hplace

end All

/-! ## 6. Scripted connections -/

/-- How many of the calls have failed, the latest call first. -/
def failuresIn (fault : Nat → CallKind → Option String) : List Call → Nat
  | [] => 0
  | call :: earlier =>
    (if (fault earlier.length call.kind).isSome then 1 else 0) + failuresIn fault earlier

/-- How many calls have failed so far. -/
def Script.failures (s : Script) : Nat := failuresIn s.fault s.calls

theorem counted_record (kind : CallKind) (text : String) :
    Counted Script.failures (Script.record kind text) := by
  intro s
  unfold Script.record
  rw [Stateful.on_bind, Stateful.on_get]
  dsimp only
  rw [Stateful.on_bind, Stateful.on_set]
  dsimp only
  cases hfault : s.fault s.calls.length kind with
  | none =>
    refine Or.inl ⟨⟨(), rfl⟩, ?_⟩
    simp [Script.failures, failuresIn, hfault]
  | some message =>
    refine Or.inr ⟨⟨message, rfl⟩, ?_⟩
    simp [Script.failures, failuresIn, hfault, Nat.add_comm]

/-- A call stays one when its answer is looked up without another. -/
theorem Counted.andThen {σ α β : Type} {failed : σ → Nat} {x : Stateful σ α}
    {f : α → Stateful σ β} (hx : Counted failed x) (hf : ∀ a s,
      (∃ b, (Stateful.on (f a) s).1 = .ok b) ∧ failed (Stateful.on (f a) s).2 = failed s) :
    Counted failed (x >>= f) := by
  intro s
  rcases hx s with ⟨⟨a, ha⟩, hsame⟩ | ⟨⟨message, he⟩, hfailed⟩
  · rw [Stateful.on_bind_of_ok ha, ← hsame]
    exact Or.inl (hf a _)
  · rw [Stateful.on_bind_of_error he]
    exact Or.inr ⟨⟨message, rfl⟩, hfailed⟩

theorem takeResult_answers (s : Script) :
    (∃ rows, (Stateful.on Script.takeResult s).1 = .ok rows) ∧
      (Stateful.on Script.takeResult s).2.failures = s.failures := by
  obtain ⟨results, fault, calls⟩ := s
  cases results with
  | nil => exact ⟨⟨_, rfl⟩, rfl⟩
  | cons rows rest => exact ⟨⟨_, rfl⟩, rfl⟩

/-- **The failures of a scripted connection can be observed,** whatever the script. -/
theorem script_observed (d : Dialect) (primaryKey : String) :
    Observed Script.failures (Script.connection d primaryKey) where
  first query := by
    refine (counted_record .first (query.render d)).andThen fun _ s => ?_
    obtain ⟨⟨rows, hrows⟩, hsame⟩ := takeResult_answers s
    rw [Stateful.on_bind_of_ok hrows]
    exact ⟨⟨_, rfl⟩, hsame⟩
  all query := (counted_record .all (query.render d)).andThen fun _ => takeResult_answers
  exec statement := counted_record .exec (statement.render d)
  primaryKey table := (counted_record .primaryKey table).andThen fun _ _ => ⟨⟨_, rfl⟩, rfl⟩

/-- A table of things on a scripted connection. -/
def things : Table Scripted := ⟨Script.connection .sqlite "id", {}, "things", []⟩

theorem things_report :
    Observed Script.failures things.connection ∧ WritesReport Script.failures things :=
  ⟨script_observed .sqlite "id", writes_report Script.failures things (script_observed .sqlite "id")⟩

/-- A connection that does not name the primary key. -/
def nameless : Script :=
  { fault := fun _ kind => if kind = .primaryKey then some "down" else none }

/-- The delete of a row reports the failure, and the delete of a selection raises it. -/
theorem nameless_delete_raises :
    (Stateful.on (things.deleteRow [] (.literal (.count 1))) nameless).1
        = .ok (.failure "storage error: down") ∧
      (Stateful.on (things.deleteStream [] none []) nameless).1 = .error (.storage "down") ∧
      ¬Reports Script.failures (things.deleteStream [] none []) nameless := by
  have hraised : (Stateful.on (things.deleteStream [] none []) nameless).1
      = .error (.storage "down") := rfl
  refine ⟨rfl, hraised, fun h => ?_⟩
  exact absurd (h.raised _ hraised) (by decide)

end Sql

end QueryAlgebra
