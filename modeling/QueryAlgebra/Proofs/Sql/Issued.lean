import QueryAlgebra.Proofs.Sql.Executions

/-!
# Issued statements

A connection may answer anything and any of its calls may fail. All that is assumed is that it keeps
the statements it is handed (`Traced`). What a table hands over is then known by its kinds: a property
of all queries, deletes and written statements that the table can make holds of everything issued, in
every run.

* `Issues`: a computation that issues only statements with a property. A queue is so when its tasks
  are.
* `Admits`: a property that the queries and deletes of a table have.
* `issues_update`, `issues_replace`, `issues_insert`: writes, by the statement that writes the values.
* `issues_stream`, `issues_readRow`, `issues_deleteStream`, `issues_deleteRow`: reads and deletes.
* `Connection.traced`: any connection, with the statements it is handed kept.
-/

namespace QueryAlgebra

namespace Sql

/-! ## 1. Statements handed over -/

section Statements

variable {σ α β : Type} (trace : σ → List Statement) (P : Statement → Prop)

/-- **What is assumed of a connection:** it keeps every statement it is handed, also when the call
    fails. The name of a primary key is asked for without a statement. -/
structure Traced (connection : Connection (Stateful σ)) : Prop where
  first (query : Statement) (s : σ) :
    trace (Stateful.on (connection.first query) s).2 = trace s ++ [query]
  all (query : Statement) (s : σ) :
    trace (Stateful.on (connection.all query) s).2 = trace s ++ [query]
  exec (statement : Statement) (s : σ) :
    trace (Stateful.on (connection.exec statement) s).2 = trace s ++ [statement]
  primaryKey (table : String) (s : σ) :
    trace (Stateful.on (connection.primaryKey table) s).2 = trace s

/-- From one state to another, statements with a property are issued. -/
def IssuedBetween (before after : σ) : Prop :=
  ∃ issued, trace after = trace before ++ issued ∧ ∀ statement ∈ issued, P statement

/-- **A computation issues only statements with a property,** and its answer has one. -/
def Issues (Q : α → Prop) (x : Stateful σ α) : Prop :=
  ∀ s, IssuedBetween trace P s (Stateful.on x s).2 ∧ ∀ a, (Stateful.on x s).1 = .ok a → Q a

variable {trace P}

theorem IssuedBetween.refl (s : σ) : IssuedBetween trace P s s :=
  ⟨[], (List.append_nil _).symm, List.forall_mem_nil _⟩

theorem IssuedBetween.trans {s₁ s₂ s₃ : σ} (h : IssuedBetween trace P s₁ s₂)
    (h' : IssuedBetween trace P s₂ s₃) : IssuedBetween trace P s₁ s₃ := by
  obtain ⟨issued, hissued, hP⟩ := h
  obtain ⟨more, hmore, hP'⟩ := h'
  exact ⟨issued ++ more, by rw [hmore, hissued, List.append_assoc],
    List.forall_mem_append.mpr ⟨hP, hP'⟩⟩

theorem closed_issues : Closed (M := Stateful σ) (fun _ => Issues trace P) where
  pure h s := ⟨.refl s, fun _ ha => Except.ok.inj ha ▸ h⟩
  throw _ s := ⟨.refl s, fun _ ha => by cases ha⟩
  bind {_ _ _ _ x f} hx hf s := by
    obtain ⟨hissued, hQ⟩ := hx s
    rw [Stateful.on_bind]
    rcases hon : Stateful.on x s with ⟨e | a, s'⟩ <;> rw [hon] at hissued hQ
    · exact ⟨hissued, fun _ hb => by cases hb⟩
    · obtain ⟨hmore, hR⟩ := hf a (hQ a rfl) s'
      exact ⟨hissued.trans hmore, hR⟩

/-- What is known of an answer, and that it is one. -/
theorem Issues.answer {Q : α → Prop} {x : Stateful σ α} (h : Issues trace P Q x) :
    Issues trace P (fun a => Q a ∧ ∃ s, (Stateful.on x s).1 = .ok a) x :=
  fun s => ⟨(h s).1, fun a ha => ⟨(h s).2 a ha, s, ha⟩⟩

/-- A failure that is caught: what was issued before it counts. -/
theorem Issues.tryCatch {Q : α → Prop} {x : Stateful σ α} {f : Error → Stateful σ α}
    (hx : Issues trace P Q x) (hf : ∀ e, Issues trace P Q (f e)) :
    Issues trace P Q (tryCatch x f) := by
  intro s
  obtain ⟨hissued, hQ⟩ := hx s
  rw [Stateful.on_tryCatch]
  rcases hon : Stateful.on x s with ⟨e | a, s'⟩ <;> rw [hon] at hissued hQ
  · obtain ⟨hmore, hR⟩ := hf e s'
    exact ⟨hissued.trans hmore, hR⟩
  · exact ⟨hissued, hQ⟩

theorem Issues.report {x : Stateful σ WriteResult} (h : Anyway (fun _ => Issues trace P) x) :
    Anyway (fun _ => Issues trace P) (WriteResult.report x) :=
  Issues.tryCatch h fun _ => closed_issues.ofOutcome _

/-- The loop of an insert issues what the writes of its documents do. -/
theorem Issues.reportEach {write : Fields → Stateful σ WriteResult} {docs : List Fields}
    (hwrite : ∀ doc ∈ docs, Anyway (fun _ => Issues trace P) (write doc)) (total : WriteResult) :
    Anyway (fun _ => Issues trace P) (WriteResult.reportEach write total docs) := by
  induction docs generalizing total with
  | nil => exact closed_issues.known total
  | cons doc rest ih =>
    obtain ⟨hdoc, hrest⟩ := List.forall_mem_cons.mp hwrite
    exact closed_issues.andThen (Issues.report hdoc) fun _ => ih hrest _

/-- An insert issues what its header and the writes of its documents do. -/
theorem Issues.insertAfter {η : Type} {header : Stateful σ η}
    {write : η → Fields → Stateful σ WriteResult} {docs : Value}
    (hheader : Anyway (fun _ => Issues trace P) header)
    (hwrite : ∀ list, docs.documents = .ok list → ∀ read, ∀ doc ∈ list,
      Anyway (fun _ => Issues trace P) (write read doc)) :
    Anyway (fun _ => Issues trace P) (WriteResult.insertAfter header write docs) := by
  refine closed_issues.bind (closed_issues.checked fun _ hlist => hlist) fun list hlist => ?_
  have hread : Anyway (fun _ => Issues trace P)
      (do return .ok (← header) : Stateful σ (Except Error η)) :=
    closed_issues.andThen hheader fun _ => closed_issues.known _
  refine closed_issues.andThen (Issues.tryCatch hread fun _ => closed_issues.known _) fun outcome => ?_
  cases outcome with
  | error e => exact closed_issues.ofOutcome _
  | ok read => exact Issues.reportEach (hwrite list hlist read) {}

/-- A call that hands over one statement. -/
theorem issues_of_handed {x : Stateful σ α} {statement : Statement}
    (h : ∀ s, trace (Stateful.on x s).2 = trace s ++ [statement]) (hP : P statement) :
    Anyway (fun _ => Issues trace P) x :=
  fun s => ⟨⟨[statement], h s, by simpa using hP⟩, fun _ _ => trivial⟩

variable {connection : Connection (Stateful σ)} (h : Traced trace connection)

include h

theorem Traced.issues_primaryKey (table : String) :
    Anyway (fun _ => Issues trace P) (connection.primaryKey table) :=
  fun s => ⟨⟨[], by rw [h.primaryKey, List.append_nil], List.forall_mem_nil _⟩, fun _ _ => trivial⟩

theorem Traced.issues_exec {statement : Statement} (hP : P statement) (r : WriteResult) :
    Anyway (fun _ => Issues trace P) (connection.exec statement >>= fun _ => pure r) :=
  closed_issues.andThen (issues_of_handed (h.exec statement) hP) fun _ => closed_issues.known r

end Statements

/-! ## 2. The statements of a table -/

namespace Table

variable {M : Type → Type}

/-- The query for the row of a key. -/
def selectRow (t : Table M) (primaryKey : String) (key : Value) : Statement :=
  .select false none t.name [.equals primaryKey key] none

/-- **A property that the queries and deletes of a table have.** The tests in them are made of columns
    and values, and a projection is on some column. -/
structure Admits (t : Table M) (P : Statement → Prop) : Prop where
  row (primaryKey : String) (key : Value) : P (t.selectRow primaryKey key)
  rows (plan : StreamPlan M) (primaryKey : String) (test : Option RowTest)
    (hcolumns : plan.columns ≠ some []) (htest : ∀ x ∈ test, ∃ column values, x = .isIn column values) :
    P (plan.select t.name primaryKey test)
  keys (plan : StreamPlan M) (primaryKey : String) (test : Option RowTest)
    (htest : ∀ x ∈ test, ∃ column values, x = .isIn column values) :
    P (plan.selectKeys t.name primaryKey test)
  delete (primaryKey : String) (key : Value) : P (.delete t.name (.equals primaryKey key))
  deleteAll (primaryKey : String) (keys : List Value) : P (.delete t.name (.isIn primaryKey keys))

end Table

/-- **What is asked of the plans of a queue** that project on no column. Nothing is asked of a queue
    without a projection on none. -/
def ColumnlessAs {σ : Type} (allowed : StreamPlan (Stateful σ) → Prop) (scope : Scope)
    (entries : List (Entry (Stateful σ))) : Prop :=
  .pluck [] ∈ entries → ∀ s plan, (Stateful.on (planStream scope entries) s).1 = .ok plan →
    plan.columns = some [] → allowed plan

/-! ## 3. Rows -/

section Tables

variable {σ : Type} {trace : σ → List Statement} {P : Statement → Prop} {t : Table (Stateful σ)}
  (h : Traced trace t.connection) (hadmits : t.Admits P)

section Rows

variable {scope : Scope} {key : Operand (Stateful σ)}

include h hadmits in
theorem issues_fetchRow (primaryKey : String) (k : Value) :
    Anyway (fun _ => Issues trace P) (t.fetchRow primaryKey k) := by
  have hquery := issues_of_handed (h.first _) (hadmits.row primaryKey k)
  refine closed_issues.andThen hquery fun row => ?_
  cases row with
  | none => exact closed_issues.known _
  | some row => exact closed_issues.andThen (closed_issues.ofOutcome _) fun _ => closed_issues.known _

include h hadmits in
theorem issues_deleteAt (primaryKey : String) (k : Value) :
    Anyway (fun _ => Issues trace P) (t.deleteAt primaryKey k) := by
  refine closed_issues.andThen (issues_fetchRow h hadmits primaryKey k) fun row => ?_
  cases row with
  | none => exact closed_issues.known _
  | some row => exact h.issues_exec (hadmits.delete primaryKey k) _

include h hadmits in
/-- An update of a known row, by the statement that sets the fields. -/
theorem issues_updateAt {patch : Fields} {primaryKey : String} {k : Value}
    (hwrite : patch.checkKey primaryKey k = .ok () →
      P (.update t.name patch (.equals primaryKey k))) :
    Anyway (fun _ => Issues trace P) (t.updateAt patch primaryKey k) := by
  refine closed_issues.bind (closed_issues.checked fun _ hcheck => hcheck) fun _ hcheck => ?_
  refine closed_issues.andThen (issues_fetchRow h hadmits primaryKey k) fun row => ?_
  cases row with
  | none => exact closed_issues.known _
  | some old =>
    dsimp only
    split_ifs
    · exact closed_issues.known _
    · exact h.issues_exec (hwrite hcheck) _

include h hadmits in
/-- A replacement of a known row, by the statement that writes the document. -/
theorem issues_replaceAt {doc : Fields} {primaryKey : String} {k : Value}
    (hwrite : P (t.replacement doc primaryKey k)) :
    Anyway (fun _ => Issues trace P) (t.replaceAt doc primaryKey k) := by
  refine closed_issues.andThen (closed_issues.ofOutcome _) fun _ => ?_
  refine closed_issues.andThen (issues_fetchRow h hadmits primaryKey k) fun row => ?_
  cases row with
  | none => exact h.issues_exec hwrite _
  | some old =>
    dsimp only
    split_ifs
    · exact closed_issues.known _
    · exact h.issues_exec hwrite _

/-- **What a write of a row issues once its key is known.** When the key is not known, that is
    nothing. -/
theorem issued_after_rowTarget {body : String × Value → Stateful σ WriteResult} {s : σ}
    (hbody : ∀ target, (Stateful.on (t.rowTarget scope key) s).1 = .ok target →
      Anyway (fun _ => Issues trace P) (body target)) :
    IssuedBetween trace P (Stateful.on (t.rowTarget scope key) s).2
      (Stateful.on (WriteResult.report (do let target ← t.rowTarget scope key; body target)) s).2 := by
  rw [WriteResult.on_report, Stateful.on_bind]
  rcases hon : Stateful.on (t.rowTarget scope key) s with ⟨e | target, s'⟩ <;> rw [hon] at hbody
  · exact .refl s'
  · have hissued := (hbody target rfl s').1
    rcases hbodyOn : Stateful.on (body target) s' with ⟨e | r, s''⟩ <;> rw [hbodyOn] at hissued
    · simpa only [hbodyOn] using hissued
    · simpa only [hbodyOn] using hissued

variable (hkey : key.Tasks (Anyway fun _ => Issues trace P))

include h hkey

theorem issues_rowTarget : Anyway (fun _ => Issues trace P) (t.rowTarget scope key) :=
  closed_issues.andThen (closed_issues.resolve key hkey scope) fun _ =>
    closed_issues.andThen (h.issues_primaryKey _) fun _ => closed_issues.known _

include hadmits

theorem issues_readRow {entries : List (Entry (Stateful σ))}
    (hentries : EntriesTasks (Anyway fun _ => Issues trace P) entries) :
    Anyway (fun _ => Issues trace P) (t.readRow scope key entries) :=
  closed_issues.andThen (closed_issues.resolve key hkey scope) fun _ =>
    closed_issues.andThen (h.issues_primaryKey _) fun _ =>
      closed_issues.andThen (issues_fetchRow h hadmits _ _) fun _ =>
        closed_issues.evaluate entries hentries scope _

theorem issues_deleteRow : Anyway (fun _ => Issues trace P) (t.deleteRow scope key) :=
  Issues.report (closed_issues.andThen (issues_rowTarget h hkey) fun target =>
    issues_deleteAt h hadmits target.1 target.2)

/-- **The update of a row,** by the statement that sets the fields. -/
theorem issues_update {patch : Value}
    (hwrite : ∀ fields primaryKey k, patch.singleDocument "update" = .ok fields →
      fields.isErasure = false → P (.update t.name fields (.equals primaryKey k))) :
    Anyway (fun _ => Issues trace P) (t.update scope key patch) := by
  refine closed_issues.bind (closed_issues.checked fun _ hfields => hfields) fun fields hfields => ?_
  split_ifs with herase
  · exact issues_deleteRow h hadmits hkey
  · refine Issues.report (closed_issues.andThen (issues_rowTarget h hkey) fun target => ?_)
    refine issues_updateAt h hadmits fun _ => ?_
    exact hwrite fields target.1 target.2 hfields (by simpa using herase)

/-- **The replacement of a row,** by the statement that writes the document. -/
theorem issues_replace {doc : Value}
    (hwrite : ∀ fields primaryKey k, P (t.replacement fields primaryKey k)) :
    Anyway (fun _ => Issues trace P) (t.replace scope key doc) := by
  refine closed_issues.andThen (closed_issues.ofOutcome _) fun fields => ?_
  split_ifs
  · exact issues_deleteRow h hadmits hkey
  · refine Issues.report (closed_issues.andThen (issues_rowTarget h hkey) fun target => ?_)
    exact issues_replaceAt h hadmits (hwrite fields target.1 target.2)

end Rows

/-! ## 4. Documents -/

include h hadmits

theorem issues_insertOne {primaryKey : String} {conflict : Conflict} {doc : Fields}
    (hwrite : P (t.insertStatement primaryKey doc conflict)) :
    Anyway (fun _ => Issues trace P) (t.insertOne primaryKey conflict doc) := by
  have hstored : Anyway (fun _ => Issues trace P) (t.storedRow primaryKey doc conflict) := by
    unfold Table.storedRow
    split
    · exact closed_issues.known _
    · exact issues_fetchRow h hadmits _ _
    · exact closed_issues.known _
  refine closed_issues.andThen hstored fun row => ?_
  cases row with
  | none => exact h.issues_exec hwrite _
  | some old =>
    dsimp only
    split_ifs
    · exact closed_issues.known _
    · exact h.issues_exec hwrite _

/-- **An insert,** by the statements of its documents. -/
theorem issues_insert {docs : Value} {choice : Option Conflict}
    (hwrite : ∀ list doc primaryKey, docs.documents = .ok list → doc ∈ list →
      P (t.insertStatement primaryKey doc (t.config.conflictFor choice))) :
    Anyway (fun _ => Issues trace P) (t.insert docs choice) :=
  Issues.insertAfter (h.issues_primaryKey t.name) fun list hlist primaryKey doc hdoc =>
    issues_insertOne h hadmits (hwrite list doc primaryKey hlist hdoc)

/-! ## 5. Selections -/

theorem issues_deleteKeys (primaryKey : String) (keys : List Value) :
    Anyway (fun _ => Issues trace P) (t.deleteKeys primaryKey keys) := by
  cases keys with
  | nil => exact closed_issues.known _
  | cons key keys => exact h.issues_exec (hadmits.deleteAll primaryKey _) _

theorem issues_fetch {plan : StreamPlan (Stateful σ)} (hcolumns : plan.columns ≠ some [])
    (primaryKey : String) {test : Option RowTest}
    (htest : ∀ x ∈ test, ∃ column values, x = .isIn column values) :
    Anyway (fun _ => Issues trace P) (t.fetch plan primaryKey test) :=
  closed_issues.andThen (issues_of_handed (h.all _) (hadmits.rows plan primaryKey test hcolumns htest))
    fun _ => closed_issues.ofOutcome _

section Streams

variable {scope : Scope} {keys : Option (KeyScope (Stateful σ))} {entries : List (Entry (Stateful σ))}
  {allowed : StreamPlan (Stateful σ) → Prop}
  (hkeys : ∀ k ∈ keys, OperandsTasks (Anyway fun _ => Issues trace P) k.keys)
  (hentries : EntriesTasks (Anyway fun _ => Issues trace P) entries)

omit h hadmits in
include hentries in
theorem issues_planStream (hcolumns : ColumnlessAs allowed scope entries) :
    Issues trace P
      (fun plan => EntriesTasks (Anyway fun _ => Issues trace P) plan.rest ∧
        (plan.columns = some [] → allowed plan))
      (planStream scope entries) := by
  refine closed_issues.mono (closed_issues.planStream_columns hentries scope).answer ?_
  rintro plan ⟨⟨hrest, hpluck⟩, s, hplan⟩
  exact ⟨hrest, fun hnone => hcolumns (hpluck hnone) s plan hplan hnone⟩

omit hadmits in
include hkeys in
/-- Where a plan is to run, the test of the keys is a list. -/
theorem issues_target (plan : StreamPlan (Stateful σ)) :
    Issues trace P
      (fun place => ∀ p ∈ place, plan.kill = false ∧
        ∀ x ∈ p.2, ∃ column values, x = .isIn column values)
      (t.target scope keys plan) := by
  unfold Table.target
  split_ifs with hkill
  · exact closed_issues.pure (by simp)
  · refine closed_issues.andThen (h.issues_primaryKey _) fun primaryKey => ?_
    cases keys with
    | none => exact closed_issues.pure (by simp [hkill])
    | some k =>
      have hvalues := closed_issues.resolveAll k.keys (hkeys k rfl) scope
      refine closed_issues.andThen hvalues fun values => ?_
      split
      · exact closed_issues.pure (by simp)
      · next test htest =>
        unfold inList at htest
        split_ifs at htest
        cases htest
        exact closed_issues.pure (by simp [hkill])

include hkeys hentries

/-- **A read of a table** or a selection. -/
theorem issues_stream (hcolumns : ColumnlessAs (fun plan => plan.kill = true) scope entries) :
    Anyway (fun _ => Issues trace P) (t.stream scope keys entries) := by
  refine closed_issues.bind (issues_planStream hentries hcolumns) ?_
  rintro plan ⟨hrest, hkilled⟩
  refine closed_issues.bind (issues_target h hkeys plan) fun place hplace => ?_
  cases place with
  | none => exact closed_issues.finish hrest scope []
  | some place =>
    obtain ⟨hkill, htest⟩ := hplace place rfl
    have hsome : plan.columns ≠ some [] := fun hnone => by simp [hkilled hnone] at hkill
    exact closed_issues.andThen (issues_fetch h hadmits hsome place.1 htest)
      fun rows => closed_issues.finish hrest scope rows

/-- **The delete of a selection.** -/
theorem issues_deleteStream
    (hcolumns : ColumnlessAs (fun plan => plan.kill = true ∨ plan.rest = []) scope entries) :
    Anyway (fun _ => Issues trace P) (t.deleteStream scope keys entries) := by
  refine closed_issues.bind (issues_planStream hentries hcolumns) ?_
  rintro plan ⟨hrest, hkeysOnly⟩
  refine closed_issues.bind (issues_target h hkeys plan) fun place hplace => ?_
  cases place with
  | none => exact closed_issues.known _
  | some place =>
    obtain ⟨hkill, htest⟩ := hplace place rfl
    refine Issues.report ?_
    dsimp only
    split_ifs with hnothing
    · have hquery := issues_of_handed (h.all _) (hadmits.keys plan place.1 place.2 htest)
      exact closed_issues.andThen hquery fun rows => closed_issues.andThen (closed_issues.known _)
        fun selected => issues_deleteKeys h hadmits place.1 selected
    · have hsome : plan.columns ≠ some [] := fun hnone => by
        rcases hkeysOnly hnone with hkilled | hrest
        · simp [hkilled] at hkill
        · simp [hrest] at hnothing
      refine closed_issues.andThen (issues_fetch h hadmits hsome place.1 htest) fun rows => ?_
      refine closed_issues.andThen (closed_issues.finish hrest scope rows) fun answer => ?_
      exact closed_issues.andThen (closed_issues.ofOutcome _) fun selected =>
        issues_deleteKeys h hadmits place.1 selected

end Streams

end Tables

/-! ## 6. Any connection, traced -/

section Tracers

variable {σ : Type}

/-- A call, with the statements it hands over. -/
def handing {α : Type} (statements : List Statement) (x : Stateful σ α) :
    Stateful (σ × List Statement) α :=
  ExceptT.mk fun p =>
    pure ((Stateful.on x p.1).1, (Stateful.on x p.1).2, p.2 ++ statements)

/-- A connection that keeps the statements it is handed. -/
def Connection.traced (c : Connection (Stateful σ)) :
    Connection (Stateful (σ × List Statement)) where
  first query := handing [query] (c.first query)
  all query := handing [query] (c.all query)
  exec statement := handing [statement] (c.exec statement)
  primaryKey table := handing [] (c.primaryKey table)

/-- **A connection that keeps its statements is as it is assumed to be,** whatever it answers. -/
theorem traced_traced (c : Connection (Stateful σ)) : Traced Prod.snd c.traced where
  first _ _ := rfl
  all _ _ := rfl
  exec _ _ := rfl
  primaryKey _ s := List.append_nil s.2

end Tracers

end Sql

end QueryAlgebra
