import QueryAlgebra.Proofs.KeyValue.WholeWrites

/-!
# Writes are all or nothing

All writes of a database on a reliable store, whatever its calls answer and whichever of them fail:
each of them is whole, or writes its rows one after another, and none raises a fault of the storage.

* `Faultless`: a computation that raises no fault of the storage.
* `writes_allOrNothing`: all writes of a database.
-/

namespace QueryAlgebra

namespace KeyValue

/-! ## 1. Faults that are not raised -/

section Faultless

variable {σ α : Type}

/-- A computation that raises no fault of the storage. -/
def Faultless (x : Stateful σ α) : Prop :=
  ∀ s e, (Stateful.on x s).1 = .error e → e.isStorageFault = false

theorem Faultless.ofOutcome {x : Except Error α}
    (h : ∀ e, x = .error e → e.isStorageFault = false) :
    Faultless (ofOutcome x : Stateful σ α) := by
  intro s e he
  rw [Stateful.on_ofOutcome] at he
  exact h e he

theorem Faultless.bind {β : Type} {x : Stateful σ α} {f : α → Stateful σ β} (hx : Faultless x)
    (hf : ∀ a, Faultless (f a)) : Faultless (x >>= f) := by
  intro s e he
  have hfirst := hx s
  rw [Stateful.on_bind] at he
  rcases hon : Stateful.on x s with ⟨e' | a, s'⟩ <;> rw [hon] at he hfirst
  · cases he
    exact hfirst _ rfl
  · exact hf a s' e he

theorem Faultless.report (x : Stateful σ WriteResult) : Faultless (WriteResult.report x) :=
  fun _ _ => isStorageFault_report

theorem Faultless.each (write : Fields → Stateful σ WriteResult) (docs : List Fields)
    (total : WriteResult) : Faultless (WriteResult.reportEach write total docs) := by
  induction docs generalizing total with
  | nil => exact fun _ _ he => by cases he
  | cons doc docs ih => exact Faultless.bind (Faultless.report _) fun r => ih (total.merge r)

/-- An insert raises no fault of the storage, whatever it reads first and however it writes. -/
theorem Faultless.insertAfter {η : Type} (header : Stateful σ η)
    (write : η → Fields → Stateful σ WriteResult) (docs : Value) :
    Faultless (WriteResult.insertAfter header write docs) := by
  refine Faultless.bind (Faultless.ofOutcome fun e => isStorageFault_documents) fun list s e he => ?_
  rw [Stateful.on_bind, Stateful.on_attempt] at he
  dsimp only at he
  cases hread : (Stateful.on header s).1 with
  | error e' =>
    rw [hread] at he
    have hdegraded : WriteResult.degrade (.error e') = .error e := by
      rwa [Stateful.on_ofOutcome] at he
    obtain ⟨rfl, hfault⟩ := isStorageFault_degrade hdegraded
    exact hfault
  | ok read =>
    rw [hread] at he
    exact Faultless.each (write read) list {} _ e he

variable (t : Table (Stateful σ)) (scope : Scope) (key : Operand (Stateful σ))

theorem deleteRow_faultless : Faultless (t.deleteRow scope key) := Faultless.report _

theorem update_faultless (patch : Value) : Faultless (t.update scope key patch) := by
  refine Faultless.bind (Faultless.ofOutcome fun e => isStorageFault_singleDocument) fun patch => ?_
  split_ifs
  · exact deleteRow_faultless t scope key
  · exact Faultless.report _

theorem replace_faultless (doc : Value) : Faultless (t.replace scope key doc) := by
  refine Faultless.bind (Faultless.ofOutcome fun e => isStorageFault_singleDocument) fun doc => ?_
  split_ifs
  · exact deleteRow_faultless t scope key
  · exact Faultless.report _

theorem insert_faultless (docs : Value) (choice : Option Conflict) :
    Faultless (t.insert docs choice) := Faultless.insertAfter _ _ docs

/-- Deleting a selection raises a fault of the storage only when working out its queue does. -/
theorem deleteStream_fault {scope : Scope} {keys : Option (KeyScope (Stateful σ))}
    {entries : List (Entry (Stateful σ))} {s : σ} {e : Error}
    (he : (Stateful.on (t.deleteStream scope keys entries) s).1 = .error e) :
    e.isStorageFault = false ∨
      (Stateful.on (Pipeline.ofEntries scope entries) s).1 = .error e := by
  unfold Table.deleteStream at he
  rw [Stateful.on_bind] at he
  rcases hon : Stateful.on (Pipeline.ofEntries scope entries) s with ⟨e' | p, s'⟩ <;> rw [hon] at he
  · cases he
    exact Or.inr rfl
  · exact Or.inl (isStorageFault_report he)

end Faultless

/-! ## 2. All writes -/

section All

variable {σ : Type} (j : Journal σ) (db : Database (Stateful σ))

/-- **The writes of a database are all or nothing**, on every state, whatever its calls answer and
    whichever of them fail. -/
structure AllOrNothing : Prop where
  /-- A table is created whole. -/
  create (name : String) (schema : Schema) : Whole j (fun _ => True) (db.create name schema)
  /-- A table is dropped whole. -/
  drop (name : String) : Whole j (fun _ => True) (db.drop name)
  /-- An index is created whole. -/
  createIndex (name : String) (schema : Schema) (field : String) :
    Whole j (fun _ => True) ((db.table name schema).createIndex field)
  /-- An index is dropped whole. -/
  dropIndex (name : String) (schema : Schema) (field : String) :
    Whole j (fun _ => True) ((db.table name schema).dropIndex field)
  /-- A row is updated whole, and no fault of the storage is raised. -/
  update (name : String) (schema : Schema) (scope : Scope) (key : Operand (Stateful σ))
    (hkey : key.Tasks (Anyway (Yields σ))) (patch : Value) :
    Whole j WriteResult.Counts ((db.table name schema).update scope key patch) ∧
      Faultless ((db.table name schema).update scope key patch)
  /-- A row is replaced whole, and no fault of the storage is raised. -/
  replace (name : String) (schema : Schema) (scope : Scope) (key : Operand (Stateful σ))
    (hkey : key.Tasks (Anyway (Yields σ))) (doc : Value) :
    Whole j WriteResult.Counts ((db.table name schema).replace scope key doc) ∧
      Faultless ((db.table name schema).replace scope key doc)
  /-- A row is deleted whole, and no fault of the storage is raised. -/
  delete (name : String) (schema : Schema) (scope : Scope) (key : Operand (Stateful σ))
    (hkey : key.Tasks (Anyway (Yields σ))) :
    Whole j WriteResult.Counts ((db.table name schema).deleteRow scope key) ∧
      Faultless ((db.table name schema).deleteRow scope key)
  /-- Documents are inserted one after another, each of them whole, and no fault of the storage is
      raised. -/
  insert (name : String) (schema : Schema) (docs : Value) (choice : Option Conflict) :
    RowByRow j (fun n => ∀ list, docs.documents = .ok list → n = list.length)
        ((db.table name schema).insert docs choice) ∧
      Faultless ((db.table name schema).insert docs choice)
  /-- A selection is deleted row by row, each of them whole, and no fault of the storage is raised
      but one that an operand of the queue raises by itself. -/
  deleteStream (name : String) (schema : Schema) (scope : Scope)
    (keys : Option (KeyScope (Stateful σ))) (entries : List (Entry (Stateful σ)))
    (hkeys : ∀ k ∈ keys, OperandsTasks (Anyway (Yields σ)) k.keys)
    (hentries : EntriesTasks (Anyway (Yields σ)) entries) :
    RowByRow j (fun _ => True) ((db.table name schema).deleteStream scope keys entries) ∧
      ∀ s e, (Stateful.on ((db.table name schema).deleteStream scope keys entries) s).1 = .error e →
        e.isStorageFault = false ∨ Pipeline.ofEntries scope entries = ofOutcome (.error e)

/-- **All writes are all or nothing on a store whose batches are.** -/
theorem writes_allOrNothing (h : Reliable j db.store) : AllOrNothing j db where
  create := create_whole h
  drop := drop_whole h
  createIndex name schema field := createIndex_whole (t := db.table name schema) h field
  dropIndex name schema field := dropIndex_whole (t := db.table name schema) h field
  update name schema scope key hkey patch :=
    ⟨update_whole (t := db.table name schema) h hkey patch, update_faultless _ scope key patch⟩
  replace name schema scope key hkey doc :=
    ⟨replace_whole (t := db.table name schema) h hkey doc, replace_faultless _ scope key doc⟩
  delete name schema scope key hkey :=
    ⟨deleteRow_whole (t := db.table name schema) h hkey, deleteRow_faultless _ scope key⟩
  insert name schema docs choice :=
    ⟨insert_rowByRow (t := db.table name schema) h docs choice, insert_faultless _ docs choice⟩
  deleteStream name schema scope keys entries hkeys hentries := by
    refine ⟨deleteStream_rowByRow (t := db.table name schema) h hkeys hentries, fun s e he => ?_⟩
    rcases deleteStream_fault _ he with hfault | hqueue
    · exact Or.inl hfault
    · obtain ⟨outcome, heq, -⟩ := closed_yields.ofEntries hentries scope
      rw [heq, Stateful.on_ofOutcome] at hqueue
      obtain rfl : outcome = .error e := hqueue
      exact Or.inr heq

end All

/-- The writes of a session are all or nothing, whichever calls fail. -/
theorem session_allOrNothing :
    Reliable sessionJournal Memory.store ∧ AllOrNothing sessionJournal ⟨Memory.store, {}⟩ :=
  ⟨session_reliable, writes_allOrNothing sessionJournal ⟨Memory.store, {}⟩ session_reliable⟩

end KeyValue

end QueryAlgebra
