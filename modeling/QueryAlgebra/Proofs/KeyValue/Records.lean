import QueryAlgebra.KeyValue.Database
import QueryAlgebra.Proofs.KeyValue.Store
import QueryAlgebra.Proofs.Value.Documents

/-!
# What is read from a store

Documents, lists of keys and lists of names read back from their records. The computations that only
read answer what they answer on a snapshot of the content (`Reads`); on a snapshot what they answer
is found by evaluation.
-/

namespace QueryAlgebra

namespace KeyValue

/-! ## 1. Records -/

theorem readRecord_json {v : Value} (h : v.Readable Json.depthLimit) (hv : v.Closes) :
    readRecord v.json = .ok v := by
  unfold readRecord
  rw [Json.read_json h hv]

theorem readDocument_json {doc : Fields} (h : doc.Storable) :
    readDocument (Value.object doc).json = .ok doc := by
  unfold readDocument
  rw [readRecord_json h trivial]
  rfl

/-- What holds a document is read as an object. -/
theorem readRecord_of_readDocument {text : String} {doc : Fields} (h : readDocument text = .ok doc) :
    readRecord text = .ok (.object doc) := by
  unfold readDocument at h
  obtain ⟨v, hv, hdoc⟩ := bind_eq_ok.mp h
  cases v with
  | object fields => rw [hv, Except.ok.inj hdoc]
  | null | bool | number | string | array => cases hdoc

theorem readValues_json {keys : List Value} (h : ∀ k ∈ keys, k.Storable) :
    readValues (Value.array keys).json = .ok keys := by
  unfold readValues
  rw [readRecord_json (.array h) trivial]
  rfl

theorem readNames_record (names : List String) : readNames (namesRecord names) = .ok names := by
  have hnames : ∀ v ∈ names.map Value.string, v.Storable := by
    intro v hv
    obtain ⟨s, -, rfl⟩ := List.mem_map.mp hv
    exact Value.storable_string s
  unfold readNames namesRecord
  have hasName : ∀ s ∈ names, asName (.string s) = .ok s := fun _ _ => rfl
  rw [readValues_json hnames, ok_bind, mapM_map_eq_ok hasName, List.map_id']

theorem ofRecord_record (table : String) (l : IndexList) :
    IndexList.ofRecord table (namesRecord (l.primaryKey :: l.secondary)) = .ok l := by
  unfold IndexList.ofRecord
  rw [readNames_record]
  rfl

/-! ## 2. Snapshots -/

namespace Snapshot

variable {α β : Type} (m : Content)

theorem bind_apply (x : Snapshot α) (f : α → Snapshot β) :
    (x >>= f) m = (x m >>= fun a => f a m) := rfl

theorem ofOutcome_apply (x : Except Error α) : (ofOutcome x : Snapshot α) m = x := by
  cases x <;> rfl

theorem get_apply (key : String) : Snapshot.store.get key m = .ok (m.read key) := rfl

theorem scan_apply (start : String) : Snapshot.store.scan start m = .ok (m.startingWith start) := rfl

end Snapshot

section Answers

variable {m : Content} {t : String}

theorem loadIndexes_of_none (h : m.read ((Space.records t).named indexListName) = none) :
    loadIndexes Snapshot.store t m
      = .error (.storage ("table `" ++ t ++ "` does not exist")) := by
  unfold loadIndexes
  rw [Snapshot.bind_apply, Snapshot.get_apply, h]
  rfl

theorem loadIndexes_of_record {l : IndexList} (h : m.read ((Space.records t).named indexListName)
      = some (namesRecord (l.primaryKey :: l.secondary))) :
    loadIndexes Snapshot.store t m = .ok l := by
  unfold loadIndexes
  rw [Snapshot.bind_apply, Snapshot.get_apply, h]
  exact (Snapshot.ofOutcome_apply m _).trans (ofRecord_record t l)

/-- What is kept of a list of keys: an empty one is not kept. -/
def entryText (keys : List Value) : Option String := (listWrite "" keys).value

theorem value_listWrite (key : String) (keys : List Value) :
    (listWrite key keys).value = entryText keys := by
  unfold entryText listWrite
  split <;> rfl

theorem key_listWrite (key : String) (keys : List Value) : (listWrite key keys).key = key := by
  unfold listWrite
  split <;> rfl

theorem entryText_cons (k : Value) (keys : List Value) :
    entryText (k :: keys) = some (Value.array (k :: keys)).json := rfl

theorem lookup_of_entry {f : String} {v : Value} {keys : List Value}
    (h : m.read ((Space.index t f).key v) = entryText keys) (hkeys : ∀ k ∈ keys, k.Storable) :
    lookup Snapshot.store t f v m = .ok keys := by
  unfold lookup
  rw [Snapshot.bind_apply, Snapshot.get_apply, h]
  cases keys with
  | nil => rfl
  | cons k keys =>
    rw [entryText_cons]
    exact (Snapshot.ofOutcome_apply m _).trans (readValues_json hkeys)

end Answers

/-! ## 3. Programs that only read -/

theorem reads_loadIndexes (table : String) :
    Reads (loadIndexes Memory.store table) (loadIndexes Snapshot.store table) := by
  refine (Reads.get _).bind (fun text => ?_)
  cases text with
  | none => exact Reads.throw _
  | some text => exact Reads.ofOutcome _

theorem reads_lookup (table field : String) (v : Value) :
    Reads (lookup Memory.store table field v) (lookup Snapshot.store table field v) := by
  refine (Reads.get _).bind (fun text => ?_)
  cases text with
  | none => exact Reads.pure _
  | some text => exact Reads.ofOutcome _

theorem reads_entryChange (table field : String) (change : List Value → List Value)
    (v : Option Value) : Reads (entryChange Memory.store table field change v)
      (entryChange Snapshot.store table field change v) := by
  cases v with
  | none => exact Reads.pure _
  | some v => exact (reads_lookup table field v).bind (fun _ => Reads.pure _)

theorem reads_fieldWrites (table : String) (key : Value) (old new : Option Fields)
    (field : String) : Reads (fieldWrites Memory.store table key old new field)
      (fieldWrites Snapshot.store table key old new field) := by
  simp only [fieldWrites]
  split
  · exact Reads.pure _
  · exact (reads_entryChange _ _ _ _).bind
      (fun _ => (reads_entryChange _ _ _ _).bind (fun _ => Reads.pure _))

theorem reads_indexWrites (table : String) (key : Value) (old new : Option Fields)
    (fields : List String) : Reads (indexWrites Memory.store table key old new fields)
      (indexWrites Snapshot.store table key old new fields) := by
  induction fields with
  | nil => exact Reads.pure _
  | cons field fields ih =>
    exact (reads_fieldWrites _ _ _ _ _).bind (fun _ => ih.bind (fun _ => Reads.pure _))

theorem reads_rebuild (table field primaryKey : String) :
    Reads (rebuild Memory.store table field primaryKey)
      (rebuild Snapshot.store table field primaryKey) :=
  (Reads.scan _).bind (fun _ => (Reads.ofOutcome _).bind (fun _ => Reads.pure _))

theorem reads_tables (config : Config) :
    Reads (Database.tables ⟨Memory.store, config⟩) (Database.tables ⟨Snapshot.store, config⟩) := by
  refine (Reads.get _).bind (fun text => ?_)
  cases text with
  | none => exact Reads.pure _
  | some text => exact Reads.ofOutcome _

/-- A table on a snapshot. -/
def Table.snapshot (t : Table Session) : Table Snapshot :=
  ⟨Snapshot.store, t.config, t.name, t.schema⟩

section Tables

variable {t : Table Session} (ht : t.store = Memory.store)

include ht

theorem reads_indexes : Reads t.indexes (loadIndexes Snapshot.store t.name) := by
  unfold Table.indexes
  rw [ht]
  exact reads_loadIndexes t.name

theorem reads_fetch (key : Value) : Reads (t.fetch key) (t.snapshot.fetch key) := by
  unfold Table.fetch
  rw [ht]
  refine (Reads.get _).bind (fun text => ?_)
  cases text with
  | none => exact Reads.pure _
  | some text => exact (Reads.ofOutcome _).bind (fun _ => Reads.pure _)

theorem reads_scan : Reads t.scan t.snapshot.scan := by
  unfold Table.scan
  rw [ht]
  exact (Reads.scan _).bind (fun _ => Reads.ofOutcome _)

theorem reads_lookupAll (field : String) (keys : List Value) :
    Reads (t.lookupAll field keys) (t.snapshot.lookupAll field keys) := by
  induction keys with
  | nil => exact Reads.pure _
  | cons v keys ih =>
    unfold Table.lookupAll
    rw [ht]
    exact (reads_lookup t.name field v).bind (fun _ => ih.bind (fun _ => Reads.pure _))

theorem reads_primaryKeys (indexes : IndexList) (index : Option String) (keys : List Value) :
    Reads (t.primaryKeys indexes index keys) (t.snapshot.primaryKeys indexes index keys) := by
  cases index with
  | none => exact Reads.pure _
  | some field =>
    simp only [Table.primaryKeys]
    split
    · exact Reads.pure _
    · split
      · exact reads_lookupAll ht field keys
      · exact Reads.throw _

theorem reads_fetchAll (keys : List Value) : Reads (t.fetchAll keys) (t.snapshot.fetchAll keys) := by
  induction keys with
  | nil => exact Reads.pure _
  | cons key keys ih =>
    exact (reads_fetch ht key).bind (fun _ => ih.bind (fun _ => Reads.pure _))

end Tables

end KeyValue

end QueryAlgebra
