import QueryAlgebra.Proofs.KeyValue.Operations

/-!
# Runs of a database

Whatever sequence of operations is run on an empty store, every index is in step with the rows of its
table: under every value it lists the keys of the rows with that value, each once, and it has no
other entry. This is an induction on the run; `Op.changes` is its step.

The operations are asked for three things (`Op.Admissible`). What is written must be readable again,
numbers included. The primary keys of a table must be told apart by loose equality as they are by
their fingerprints (`Apart`). And an update may not clear a primary key, or rewrite it as one that is
only loosely equal.
-/

namespace QueryAlgebra

namespace KeyValue

/-! ## 1. Operations -/

/-- An operation on a database. -/
inductive Op where
  /-- Creates a table. -/
  | create (name : String) (schema : Schema)
  /-- Creates an index. -/
  | createIndex (table field : String)
  /-- Drops an index. -/
  | dropIndex (table field : String)
  /-- Inserts an object or an array of objects. -/
  | insert (table : String) (docs : Value) (choice : Option Conflict)
  /-- Sets fields of a document. -/
  | update (table : String) (scope : Scope) (key : Operand Session) (patch : Value)
  /-- Overwrites a document. -/
  | replace (table : String) (scope : Scope) (key : Operand Session) (doc : Value)
  /-- Deletes a document. -/
  | delete (table : String) (scope : Scope) (key : Operand Session)
  /-- Deletes what a queue selects. -/
  | deleteSelection (table : String) (scope : Scope) (keys : Option (KeyScope Session))
    (entries : List (Entry Session))

/-- The table of a name in a session. -/
def tableOf (config : Config) (name : String) : Table Session :=
  Database.table ⟨Memory.store, config⟩ name []

/-- Runs an operation; what it answers is not looked at. -/
def Op.run (config : Config) : Op → Session Unit
  | .create name schema => do
    let _ ← Database.create ⟨Memory.store, config⟩ name schema
  | .createIndex table field => (tableOf config table).createIndex field
  | .dropIndex table field => (tableOf config table).dropIndex field
  | .insert table docs choice => do
    let _ ← (tableOf config table).insert docs choice
  | .update table scope key patch => do
    let _ ← (tableOf config table).update scope key patch
  | .replace table scope key doc => do
    let _ ← (tableOf config table).replace scope key doc
  | .delete table scope key => do
    let _ ← (tableOf config table).deleteRow scope key
  | .deleteSelection table scope keys entries => do
    let _ ← (tableOf config table).deleteStream scope keys entries

/-- What an operation may bring into a store: readable documents under keys that are apart, and
    queries that write nothing by themselves. -/
def Op.Admissible (P : String → String → Prop) (m : Content) : Op → Prop
  | .create _ _ | .createIndex _ _ | .dropIndex _ _ => True
  | .insert table docs _ => ∀ l all, loadIndexes Snapshot.store table m = .ok l →
    docs.documents = .ok all → ∀ doc ∈ all, Insertable (P table) l.primaryKey doc
  | .update table scope key patch => QuietOperand key ∧
    ∀ l k fields, loadIndexes Snapshot.store table m = .ok l → Answers (key.resolve scope) m k →
      patch.singleDocument "update" = .ok fields → fields.isErasure = false →
        Patchable l.primaryKey k fields
  | .replace table scope key doc => QuietOperand key ∧
    ∀ k fields, Answers (key.resolve scope) m k → doc.singleDocument "replace" = .ok fields →
      fields.isErasure = false → Replaceable (P table) k fields
  | .delete _ _ key => QuietOperand key
  | .deleteSelection _ _ keys entries =>
    (∀ k ∈ keys, QuietOperands k.keys) ∧ QuietEntries entries

/-- A session that a run of admissible operations leads to, failed ones included. -/
inductive Reachable (config : Config) (P : String → String → Prop) (start : Memory) : Memory → Prop
  | start : Reachable config P start start
  | step {s : Memory} (h : Reachable config P start s) (op : Op)
    (hop : op.Admissible P s.content) : Reachable config P start ((op.run config).on s).2

/-! ## 2. Indexes in step -/

/-- The indexes of a table are in step with its documents. -/
structure InStep (config : Config) (s : Memory) (table : String) (l : IndexList)
    (docs : List Fields) : Prop where
  indexes : ((tableOf config table).indexes.on s).1 = .ok l
  documents : ((tableOf config table).scan.on s).1 = .ok (docs.map .object)
  distinct : (docs.map (fun doc => (primaryOf l.primaryKey doc).fingerprint)).Nodup
  exact : ∀ field ∈ l.secondary, ∀ v : Value, v.isNull = false → ∃ keys,
    ((lookup Memory.store table field v).on s).1 = .ok keys ∧
      (keys.map Value.fingerprint).Perm
        ((keysUnder l.primaryKey field v.fingerprint docs).map Value.fingerprint)
  nothingElse : ∀ field ∈ l.secondary, ∀ e ∈ s.content.startingWith (Space.index table field).stem,
    ∃ doc ∈ docs, ∃ v, doc.get? field = some v ∧ v.isNull = false ∧
      e.1 = (Space.index table field).key v

section Runs

variable {config : Config} {P : String → String → Prop}

/-- **An admissible operation changes a store by changes, whether it succeeds or fails.** -/
theorem Op.changes (hstrings : ∀ t s, P t (Value.string s).fingerprint) {m : Content}
    (hs : OrderedMap.Sorted m) {op : Op} (hop : op.Admissible P m) :
    Keeps (Changes P m) m (op.run config) := by
  have hdone : ∀ {α : Type} {x : Session α}, Keeps (Changes P m) m x →
      Keeps (Changes P m) m (do let _ ← x) := fun hx =>
    hx.bind (fun _ _ hm => Keeps.of_inert (Inert.pure _) hm)
  have ht : ∀ name, (tableOf config name).store = Memory.store := fun _ => rfl
  cases op with
  | create name schema => exact hdone (changes_create config name schema)
  | createIndex table field => exact changes_createIndex (ht table) field
  | dropIndex table field => exact changes_dropIndex (ht table) field
  | insert table docs choice => exact hdone (changes_insert (ht table) hstrings hs choice hop)
  | update table scope key patch => exact hdone (changes_update (ht table) hop.1 hop.2)
  | replace table scope key doc => exact hdone (changes_replace (ht table) hop.1 hop.2)
  | delete table scope key => exact hdone (changes_deleteRow (ht table) hop)
  | deleteSelection table scope keys entries =>
    exact hdone (changes_deleteStream (ht table) hs hop.1 hop.2)

/-- **A property that every change keeps is kept by every run.** -/
theorem Reachable.keep (hstrings : ∀ t s, P t (Value.string s).fingerprint) {I : Content → Prop}
    (hsorted : ∀ m, I m → OrderedMap.Sorted m) (hI : ∀ m m', I m → Change P m m' → I m')
    {start s : Memory} (hstart : Healthy start) (hempty : I start.content)
    (h : Reachable config P start s) : Healthy s ∧ I s.content := by
  induction h with
  | start => exact ⟨hstart, hempty⟩
  | step _ op hop ih =>
    obtain ⟨hs, hm⟩ := ih
    obtain ⟨hs', hchanges⟩ := Op.changes hstrings (hsorted _ hm) hop _ hs rfl
    exact ⟨hs', hchanges.keep hI hm⟩

/-- **Every run keeps a store consistent.** -/
theorem Reachable.sound (hP : ∀ t, Apart (P t)) {start s : Memory} (hstart : Healthy start)
    (hempty : start.content = []) (h : Reachable config P start s) :
    Healthy s ∧ Sound P s.content :=
  h.keep (fun t => (hP t).strings) (fun _ ⟨_, hT⟩ => hT.sorted) (fun _ _ => Sound.change hP) hstart
    (hempty ▸ sound_empty P)

/-- The indexes of a consistent store are in step. -/
theorem Consistent.inStep {s : Memory} (hs : Healthy s) {T : Tables}
    (h : Consistent P s.content T) {table : String} (ht : table ∈ T.names) :
    ∃ docs, InStep config s table (T.lists table) docs := by
  have htable := h.table table ht
  obtain ⟨docs, hdocs⟩ := exists_documents h.sorted htable.stored htable.row
  refine ⟨docs, ?_, ?_, hdocs.nodup, fun field hf v _ => ?_, fun field hf e he => ?_⟩
  · rw [(reads_indexes (t := tableOf config table) rfl s hs).1]
    exact loadIndexes_of_record htable.record
  · rw [(reads_scan (t := tableOf config table) rfl s hs).1]
    exact hdocs.scan htable.row
  · obtain ⟨keys, hread, hlists⟩ := htable.entries field hf v.fingerprint
    refine ⟨keys, ?_, ?_⟩
    · rw [(reads_lookup table field v s hs).1]
      exact lookup_of_entry hread hlists.storable
    · exact hlists.toOwners.perm (hdocs.lists htable.row field v.fingerprint).toOwners
  · obtain ⟨hread, p, hp⟩ := (Space.mem_entries h.sorted).mp he
    obtain ⟨q, doc, v, hdoc, hv, rfl⟩ := htable.place_of_entry hf (hp ▸ hread)
    obtain ⟨hget, hnull⟩ := Option.filter_eq_some_iff.mp hv
    exact ⟨doc, (hdocs.mem doc).mpr ⟨q, hdoc⟩, v, hget, by simpa using hnull, hp⟩

/-- **Indexes are in step after any run of admissible operations** among primary keys that are apart,
    in every table that is listed then. -/
theorem indexes_in_step (config : Config) (P : String → String → Prop) (hP : ∀ t, Apart (P t))
    {start s : Memory} (hstart : Healthy start) (hempty : start.content = [])
    (h : Reachable config P start s) :
    ∃ names, ((Database.tables ⟨Memory.store, config⟩).on s).1 = .ok names ∧
      ∀ table ∈ names, ∃ l docs, InStep config s table l docs := by
  obtain ⟨hs, T, hT⟩ := h.sound hP hstart hempty
  refine ⟨T.names, ?_, fun table ht => ?_⟩
  · rw [(reads_tables config s hs).1, tables_answer hT.identified]
  · obtain ⟨docs, hdocs⟩ := hT.inStep hs ht
    exact ⟨_, docs, hdocs⟩

end Runs

/-! ## 3. Two runs -/

/-- The session after operations, one after another. -/
def runAll (config : Config) (s : Memory) (ops : List Op) : Memory :=
  ops.foldl (fun s op => ((op.run config).on s).2) s

/-- Creates a table of things, with an index on their colour. -/
def createThings : Op := .create "things" [⟨"id", .number, true⟩, ⟨"colour", .string, true⟩]

/-- A red thing. -/
def redThing (i : Int) (h : -0x8000000000000000 ≤ i ∧ i < 0x10000000000000000) : Fields :=
  [("id", .number (.int i h)), ("colour", .string "red")]

/-- Inserts a red thing. -/
def insertRed (i : Int) (h : -0x8000000000000000 ≤ i ∧ i < 0x10000000000000000) : Op :=
  .insert "things" (.object (redThing i h)) none

theorem redThing_insertable (primaryKey : String) {i : Int}
    (h : -0x8000000000000000 ≤ i ∧ i < 0x10000000000000000) (hexact : i.natAbs ≤ 0x20000000000000) :
    Insertable (fun p => ∃ k, OrdinaryKey k ∧ k.fingerprint = p) primaryKey (redThing i h) := by
  have hfields : ∀ f ∈ redThing i h, f.2.Storable ∧ OrdinaryKey f.2 := by
    intro f hf
    rcases List.mem_cons.mp hf with rfl | hf
    · exact ⟨.number _ (Number.int_readsBack i h), .int i h hexact⟩
    · rw [List.mem_singleton.mp hf]
      exact ⟨Value.storable_string "red", .string "red"⟩
  refine ⟨.object (by simp [redThing]) (fun f hf => (hfields f hf).1), fun v hv _ => ?_⟩
  exact ⟨v, (hfields _ (Fields.mem_of_get? hv)).2, rfl⟩

theorem insertRed_admissible (m : Content) {i : Int}
    (h : -0x8000000000000000 ≤ i ∧ i < 0x10000000000000000) (hexact : i.natAbs ≤ 0x20000000000000) :
    (insertRed i h).Admissible (fun _ p => ∃ k, OrdinaryKey k ∧ k.fingerprint = p) m := by
  intro l all _ hall doc hdoc
  obtain rfl : [redThing i h] = all := Except.ok.inj hall
  rw [List.mem_singleton.mp hdoc]
  exact redThing_insertable l.primaryKey h hexact

/-- A field of a row, as a handle on its table. -/
def fieldOf (table : String) (key : Value) (field : String) : Handle (Table Session) Session :=
  ⟨tableOf {} table, .row (.literal key), [.select (.literal (.string field))]⟩

/-- Two things with keys that a double holds: both are listed, and the second alone once the first is
    deleted by the key that is read from its row. -/
theorem two_things_in_step :
    let s := runAll {} {} [createThings, insertRed 1 (by decide), insertRed 2 (by decide)]
    let key := (fieldOf "things" (.count 1) "id").toOperand
    let s' := (((Op.delete "things" [] key).run {}).on s).2
    let red := lookup Memory.store "things" "colour" (.string "red")
    ((∃ names, ((Database.tables ⟨Memory.store, {}⟩).on s).1 = .ok names ∧
        ∀ table ∈ names, ∃ l docs, InStep {} s table l docs) ∧
      (red.on s).1.toOption.map (List.map Value.fingerprint) = some ["1", "2"]) ∧
    (∃ names, ((Database.tables ⟨Memory.store, {}⟩).on s').1 = .ok names ∧
        ∀ table ∈ names, ∃ l docs, InStep {} s' table l docs) ∧
      (red.on s').1.toOption.map (List.map Value.fingerprint) = some ["2"] := by
  intro s key s' red
  have hhealthy : Healthy {} := ⟨rfl⟩
  have hempty : ({} : Memory).content = [] := rfl
  have hcreate := (@Reachable.start {} (fun _ p => ∃ k, OrdinaryKey k ∧ k.fingerprint = p) {}).step
    createThings trivial
  have hfirst := hcreate.step (insertRed 1 (by decide)) (insertRed_admissible _ _ (by decide))
  have hsecond := hfirst.step (insertRed 2 (by decide)) (insertRed_admissible _ _ (by decide))
  have hquiet : QuietOperand key := quiet_handle rfl trivial ⟨trivial, trivial⟩
  have hdeleted := hsecond.step (.delete "things" [] key) hquiet
  exact ⟨⟨indexes_in_step {} _ (fun _ => apart_ordinary) hhealthy hempty hsecond, by decide +kernel⟩,
    indexes_in_step {} _ (fun _ => apart_ordinary) hhealthy hempty hdeleted, by decide +kernel⟩

/-- Two things whose keys are one double: the fingerprints tell them apart, and both are stored. -/
def twins : Memory :=
  runAll {} {} [createThings, insertRed 9007199254740992 (by decide),
    insertRed 9007199254740993 (by decide)]

/-- Whether a row is red. -/
def redRow : Value → Bool
  | .object fields => placeIn "colour" (some fields) = some (Value.string "red").fingerprint
  | _ => false

/-- The list of keys takes them for one, so the index is not in step. -/
theorem twins_not_in_step : ¬∃ l docs, InStep {} twins "things" l docs := by
  rintro ⟨l, docs, h⟩
  have hlist : ((tableOf {} "things").indexes.on twins).1.toOption.map IndexList.secondary
      = some ["colour"] := by decide +kernel
  have hone : ((lookup Memory.store "things" "colour" (.string "red")).on twins).1.toOption.map
      List.length = some 1 := by decide +kernel
  have htwo : ((tableOf {} "things").scan.on twins).1.toOption.map (List.countP redRow)
      = some 2 := by decide +kernel
  rw [h.indexes] at hlist
  have hfield : "colour" ∈ l.secondary := by
    rw [Option.some.inj hlist]
    exact List.mem_singleton.mpr rfl
  obtain ⟨keys, hkeys, hperm⟩ := h.exact "colour" hfield (.string "red") rfl
  rw [hkeys] at hone
  rw [h.documents] at htwo
  have hred : (keysUnder l.primaryKey "colour" (Value.string "red").fingerprint docs).length = 2 := by
    have hcount := Option.some.inj htwo
    rw [List.countP_map, List.countP_eq_length_filter] at hcount
    rw [keysUnder, List.length_map]
    exact hcount
  have hlength := hperm.length_eq
  rw [List.length_map, List.length_map, hred, Option.some.inj hone] at hlength
  exact absurd hlength (by decide)

/-- A row whose key an update clears is listed under no key of its own in an index built later. -/
example : ((lookup Memory.store "things" "size" (.string "big")).on (runAll {} {}
    [createThings, insertRed 1 (by decide),
      .update "things" [] (.literal (.count 1)) (.object [("id", .null), ("size", .string "big")]),
      .createIndex "things" "size"])).1.toOption.map (List.map Value.fingerprint)
      = some ["null"] := by decide +kernel

/-- A double that does not read back leaves its entry behind when the row is deleted. -/
example : ((lookup Memory.store "things" "colour" (.ofDouble? (Double.ofText? "3.3e30"))).on
    (runAll {} {} [createThings,
      .insert "things" (.object [("id", .count 1),
        ("colour", .ofDouble? (Double.ofText? "3.3e30"))]) none,
      .delete "things" [] (.literal (.count 1))])).1.toOption.map (List.map Value.fingerprint)
      = some ["1"] := by decide +kernel

end KeyValue

end QueryAlgebra
