import QueryAlgebra.KeyValue.Database
import QueryAlgebra.Proofs.KeyValue.Consistency
import QueryAlgebra.Proofs.Query.Tasks

/-!
# What of a store a table touches

An operation on a table computes, runs the tasks of its queries, and calls the store at keys of the
table and at the table list. Nothing else is done to a store: a property of computations that known
answers and failures have, that sequences inherit, and that these calls have, is a property of the
operation.

* `Owns`: the keys of a table. No key is one of two tables, and the table list is of none.
* `ReadsAt`: the property holds of the calls that read at the keys of a table, so it holds of every
  read of the table.
* `EditsAt`: it also holds of the batches that a listed table may write, so it holds of every operation
  on the rows and the indexes of the table.
* `WritesAt`: it holds of every batch at those keys, so it also holds of creating and dropping the
  table.
-/

namespace QueryAlgebra

namespace KeyValue

/-! ## 1. Keys of a table -/

/-- The key is one of a table: it begins with the stem of all that is stored for it. -/
def Owns (t key : String) : Prop := (Space.table t).stem.toList <+: key.toList

section Keys

variable {a b t key : String}

theorem owns_named (space : Space) (p : String) : Owns space.tableName (space.named p) := by
  refine ⟨space.suffix p, ?_⟩
  rw [Space.toList_named]
  simp [Space.stem]

theorem owns_stem (space : Space) : Owns space.tableName space.stem := by
  have h := owns_named space ""
  rwa [Space.named, String.append_empty] at h

/-- What begins with a key of a table is one of the table. -/
theorem Owns.extend {start : String} (h : Owns t start) (hkey : start.toList <+: key.toList) :
    Owns t key := List.IsPrefix.trans h hkey

/-- **No key is one of two tables.** -/
theorem Owns.unique (ha : Plain a) (hb : Plain b) (h : Owns a key) (h' : Owns b key) : a = b := by
  obtain ⟨r, hr⟩ := h
  obtain ⟨r', hr'⟩ := h'
  simp only [Space.stem, String.toList_append, List.append_assoc] at hr hr'
  have htail := (List.cons.inj (hr.trans hr'.symm)).2
  exact String.toList_inj.mp (split_separator ha.separator hb.separator htail).1

/-- **The table list is of no table.** -/
theorem not_owns_tablesKey (ht : Plain t) : ¬Owns t Database.tablesKey := by
  rintro ⟨r, hr⟩
  have hlist := Space.toList_named .database tableListName
  simp only [Space.stem, String.toList_append, List.append_assoc] at hr
  have htail := (List.cons.inj (hr.trans hlist)).2
  have hname := (split_separator ht.separator List.not_mem_nil htail).1
  exact ht.nonempty (String.toList_inj.mp hname)

end Keys

/-! ## 2. Reads -/

variable {M : Type → Type} [Monad M] [MonadExceptOf Error M]

/-- **The calls that read a store at the keys of a table have a property.** A scan answers keys that
    begin as it was asked. -/
structure ReadsAt (G : (α : Type) → (α → Prop) → M α → Prop) (store : Store M) (t : String) :
    Prop where
  closed : Closed G
  get (key : String) (h : Owns t key) : Anyway G (store.get key)
  scan (start : String) (h : Owns t start) :
    G _ (fun entries => ∀ e ∈ entries, start.toList <+: e.1.toList) (store.scan start)

namespace ReadsAt

variable {G : (α : Type) → (α → Prop) → M α → Prop} {t : Table M} (h : ReadsAt G t.store t.name)

include h

theorem indexes : Anyway G t.indexes := by
  refine h.closed.andThen (h.get _ (owns_named (.records t.name) _)) fun text => ?_
  cases text with
  | none => exact h.closed.throw _
  | some text => exact h.closed.ofOutcome _

theorem indexNames : Anyway G t.indexNames :=
  h.closed.andThen h.indexes fun _ => h.closed.known _

theorem fetch (key : Value) : Anyway G (t.fetch key) := by
  refine h.closed.andThen (h.get _ (owns_named (.primary t.name) _)) fun text => ?_
  cases text with
  | none => exact h.closed.known _
  | some text => exact h.closed.andThen (h.closed.ofOutcome _) fun _ => h.closed.known _

theorem fetchAll (keys : List Value) : Anyway G (t.fetchAll keys) := by
  induction keys with
  | nil => exact h.closed.known _
  | cons key keys ih =>
    exact h.closed.andThen (h.fetch key) fun _ => h.closed.andThen ih fun _ => h.closed.known _

theorem scanned : Anyway G t.scan :=
  h.closed.bind (h.scan _ (owns_stem (.primary t.name))) fun _ _ => h.closed.ofOutcome _

theorem lookup (field : String) (v : Value) :
    Anyway G (KeyValue.lookup t.store t.name field v) := by
  refine h.closed.andThen (h.get _ (owns_named (.index t.name field) _)) fun text => ?_
  cases text with
  | none => exact h.closed.known _
  | some text => exact h.closed.ofOutcome _

theorem lookupAll (field : String) (values : List Value) :
    Anyway G (t.lookupAll field values) := by
  induction values with
  | nil => exact h.closed.known _
  | cons v values ih =>
    exact h.closed.andThen (h.lookup field v) fun _ =>
      h.closed.andThen ih fun _ => h.closed.known _

theorem primaryKeys (indexes : IndexList) (index : Option String) (keys : List Value) :
    Anyway G (t.primaryKeys indexes index keys) := by
  unfold Table.primaryKeys
  split
  · exact h.closed.known _
  · split_ifs
    · exact h.closed.known _
    · exact h.lookupAll _ _
    · exact h.closed.throw _

variable [LawfulMonad M] {scope : Scope}

theorem documents {keys : Option (KeyScope M)}
    (hkeys : ∀ k ∈ keys, OperandsTasks (Anyway G) k.keys) : Anyway G (t.documents scope keys) := by
  cases keys with
  | none => exact h.scanned
  | some k =>
    refine h.closed.andThen (h.closed.resolveAll k.keys (hkeys k rfl) scope) fun values => ?_
    refine h.closed.andThen h.indexes fun indexes => ?_
    exact h.closed.andThen (h.primaryKeys _ _ _) fun _ => h.fetchAll _

/-- **A queue on a table is as its tasks and the reads of the table.** -/
theorem stream {keys : Option (KeyScope M)} {entries : List (Entry M)}
    (hkeys : ∀ k ∈ keys, OperandsTasks (Anyway G) k.keys)
    (hentries : EntriesTasks (Anyway G) entries) : Anyway G (t.stream scope keys entries) :=
  h.closed.bind (h.closed.ofEntries hentries scope) fun _ hpipeline =>
    h.closed.andThen (h.documents hkeys) fun docs => h.closed.run hpipeline docs

theorem readRow {key : Operand M} {entries : List (Entry M)} (hkey : key.Tasks (Anyway G))
    (hentries : EntriesTasks (Anyway G) entries) : Anyway G (t.readRow scope key entries) :=
  h.closed.andThen (h.closed.resolve key hkey scope) fun _ =>
    h.closed.andThen (h.fetch _) fun _ => h.closed.evaluate entries hentries scope _

end ReadsAt

/-- Every task in the part of a table has a property. -/
def Target.Tasks (P : M Value → Prop) : Target M → Prop
  | .table => True
  | .keys keys => OperandsTasks P keys.keys
  | .row key => key.Tasks P

/-- **A handle is as its tasks and the reads of its table.** -/
theorem ReadsAt.handle [LawfulMonad M] {G : (α : Type) → (α → Prop) → M α → Prop}
    {handle : Handle (Table M) M} (h : ReadsAt G handle.table.store handle.table.name)
    (htarget : Target.Tasks (Anyway G) handle.target)
    (hentries : EntriesTasks (Anyway G) handle.entries) :
    handle.toOperand.Tasks (Anyway G) := by
  obtain ⟨t, target, entries⟩ := handle
  unfold Handle.toOperand
  rw [Operand.Tasks]
  intro scope
  cases target with
  | table => exact h.stream (fun k hk => by cases hk) hentries
  | keys keys =>
    refine h.stream (fun k hk => ?_) hentries
    obtain rfl : keys = k := Option.some.inj hk
    exact htarget
  | row key => exact h.readRow htarget hentries

/-! ## 3. Writes of a listed table -/

/-- The place of the index list of a table. -/
abbrev indexListKey (t : String) : String := (Space.records t).named indexListName

/-- **A write that a table may make:** it is at a key of the table, and of the index lists it puts the
    table's own and removes others only. -/
structure Write.Orderly (t : String) (w : Write) : Prop where
  owned : Owns t w.key
  records (t' : String) (h : w.key = indexListKey t') : w.value.isSome = true ↔ t' = t

theorem Write.orderly_cell {w : Write} (space : Space) (v : Value) (h : w.key = space.key v) :
    w.Orderly space.tableName :=
  ⟨h ▸ owns_named space _, fun t' hlist => absurd (hlist.symm.trans h) (indexList_ne_key t' space v)⟩

theorem Write.orderly_record (t : String) (l : IndexList) : (l.record t).Orderly t :=
  ⟨owns_named (.records t) _, fun _ h => ⟨fun _ => (indexList_injective h).symm, fun _ => rfl⟩⟩

/-- A key below an index is not the place of the table's index list. -/
theorem Write.orderly_del {t f key : String} (h : (Space.index t f).stem.toList <+: key.toList) :
    (Write.del key).Orderly t := by
  refine ⟨(owns_stem (.index t f)).extend h, fun t' hlist => ⟨fun hsome => (by cases hsome), ?_⟩⟩
  rintro rfl
  obtain ⟨p, rfl⟩ := Space.stem_prefix.mp h
  have heq : (Space.index t' f).named p = (Space.records t').named indexListName := hlist
  have hkeys := congrArg String.toList heq
  rw [Space.toList_named, Space.toList_named] at hkeys
  have hmark := List.append_cancel_left (List.cons.inj hkeys).2
  exact absurd (List.cons.inj (List.cons.inj hmark).2).1 (by decide)

/-- **The calls of a store that change a listed table have a property:** the reads at its keys, drawing
    an identifier, a computation whose failures are caught, and, once its index list has been read, a
    batch of its writes. -/
structure EditsAt (G : (α : Type) → (α → Prop) → M α → Prop) (store : Store M) (t : String)
    (listed : Prop) : Prop extends ReadsAt G store t where
  loaded : G _ (fun _ => listed) (loadIndexes store t)
  freshId : Anyway G store.freshId
  batch (hlisted : listed) (writes : List Write) (h : ∀ w ∈ writes, w.Orderly t) :
    Anyway G (store.batch writes)
  rescue {α : Type} {Q : α → Prop} {x : M α} {f : Error → M α} (hx : G α Q x)
    (hf : ∀ e, G α Q (f e)) : G α Q (tryCatch x f)

namespace EditsAt

variable {G : (α : Type) → (α → Prop) → M α → Prop} {t : Table M} {listed : Prop}
  (h : EditsAt G t.store t.name listed)

include h

theorem report {x : M WriteResult} (hx : Anyway G x) : Anyway G (WriteResult.report x) :=
  h.rescue hx fun _ => h.closed.ofOutcome _

theorem each {write : Fields → M WriteResult} (hwrite : ∀ doc, Anyway G (write doc))
    (total : WriteResult) (docs : List Fields) :
    Anyway G (WriteResult.reportEach write total docs) := by
  induction docs generalizing total with
  | nil => exact h.closed.known _
  | cons doc docs ih => exact h.closed.andThen (h.report (hwrite doc)) fun _ => ih _

/-! ### One row -/

/-- The write of a changed list is one that the table may make. -/
theorem entryChange (field : String) (change : List Value → List Value) (v : Option Value) :
    G _ (fun writes => ∀ w ∈ writes, w.Orderly t.name)
      (entryChange t.store t.name field change v) := by
  cases v with
  | none => exact h.closed.pure fun w hw => absurd hw List.not_mem_nil
  | some v =>
    refine h.closed.andThen (h.lookup field v) fun keys => h.closed.pure fun w hw => ?_
    rw [List.mem_singleton.mp hw]
    exact Write.orderly_cell (.index t.name field) v (key_listWrite _ _)

/-- Every write to an index is one that the table may make. -/
theorem indexWrites (key : Value) (old new : Option Fields) (fields : List String) :
    G _ (fun writes => ∀ w ∈ writes, w.Orderly t.name)
      (indexWrites t.store t.name key old new fields) := by
  have happend : ∀ {ws ws' : List Write}, (∀ w ∈ ws, w.Orderly t.name) →
      (∀ w ∈ ws', w.Orderly t.name) → ∀ w ∈ ws ++ ws', w.Orderly t.name := fun hws hws' w hw =>
    (List.mem_append.mp hw).elim (hws w) (hws' w)
  induction fields with
  | nil => exact h.closed.pure fun w hw => absurd hw List.not_mem_nil
  | cons field fields ih =>
    refine h.closed.bind ?_ fun _ hfirst => h.closed.bind ih fun _ hrest =>
      h.closed.pure (happend hfirst hrest)
    unfold fieldWrites
    dsimp only
    split_ifs
    · exact h.closed.pure fun w hw => absurd hw List.not_mem_nil
    · exact h.closed.bind (h.entryChange field _ _) fun _ hleave =>
        h.closed.bind (h.entryChange field _ _) fun _ henter => h.closed.pure (happend hleave henter)

theorem freshKey (attempts : Nat) : Anyway G (t.freshKey attempts) := by
  induction attempts with
  | zero => exact h.closed.throw _
  | succ attempts ih =>
    refine h.closed.andThen h.freshId fun id => h.closed.andThen (h.fetch _) fun doc => ?_
    cases doc with
    | none => exact h.closed.known _
    | some doc => exact ih

theorem keyOf (primaryKey : String) (doc : Fields) : Anyway G (t.keyOf primaryKey doc) := by
  unfold Table.keyOf
  split
  · exact h.closed.known _
  · exact h.closed.andThen (h.freshKey _) fun _ => h.closed.known _

section Listed

variable (hlisted : listed)

include hlisted

theorem commit (indexes : IndexList) (key : Value) (old new : Option Fields) :
    Anyway G (commit t.store t.name indexes key old new) := by
  refine h.closed.bind (h.indexWrites key old new _) fun writes hwrites =>
    h.batch hlisted _ fun w hw => ?_
  rcases List.mem_append.mp hw with hw | hw
  · exact hwrites w hw
  · rw [List.mem_singleton.mp hw]
    exact Write.orderly_cell (.primary t.name) key (key_documentWrite _ _)

theorem deleteKey (indexes : IndexList) (key : Value) : Anyway G (t.deleteKey indexes key) := by
  refine h.closed.andThen (h.fetch key) fun doc => ?_
  cases doc with
  | none => exact h.closed.known _
  | some old => exact h.closed.andThen (h.commit hlisted indexes key _ _) fun _ => h.closed.known _

theorem writeOver (indexes : IndexList) (key : Value) (old new : Fields) :
    Anyway G (t.writeOver indexes key old new) := by
  unfold Table.writeOver
  split_ifs
  · exact h.closed.known _
  · exact h.closed.andThen (h.commit hlisted indexes key _ _) fun _ => h.closed.known _

theorem insertOne (indexes : IndexList) (conflict : Conflict) (doc : Fields) :
    Anyway G (t.insertOne indexes conflict doc) := by
  refine h.closed.andThen (h.keyOf indexes.primaryKey doc) fun target => ?_
  refine h.closed.andThen (h.fetch target.1) fun old => ?_
  cases old with
  | none => exact h.closed.andThen (h.commit hlisted indexes _ _ _) fun _ => h.closed.known _
  | some old =>
    exact h.closed.andThen (h.closed.ofOutcome _) fun new => h.writeOver hlisted indexes _ old new

theorem deleteItems (indexes : IndexList) (total : WriteResult) (items : List Value) :
    Anyway G (t.deleteItems indexes total items) := by
  induction items generalizing total with
  | nil => exact h.closed.known _
  | cons item items ih =>
    unfold Table.deleteItems
    split
    · split
      · exact h.closed.andThen (h.report (h.deleteKey hlisted indexes _)) fun _ => ih _
      · exact ih _
    · exact ih _

end Listed

section Rows

variable [LawfulMonad M] {scope : Scope} {key : Operand M} (hkey : key.Tasks (Anyway G))

include hkey

theorem rowTarget : G _ (fun _ => listed) (t.rowTarget scope key) :=
  h.closed.andThen (h.closed.resolve key hkey scope) fun _ =>
    h.closed.bind h.loaded fun _ hlisted => h.closed.pure hlisted

theorem deleteRow : Anyway G (t.deleteRow scope key) :=
  h.report (h.closed.bind (h.rowTarget hkey) fun target hlisted =>
    h.deleteKey hlisted target.1 target.2)

theorem update (patch : Value) : Anyway G (t.update scope key patch) := by
  refine h.closed.andThen (h.closed.ofOutcome _) fun patch => ?_
  split_ifs
  · exact h.deleteRow hkey
  · refine h.report (h.closed.bind (h.rowTarget hkey) fun target hlisted => ?_)
    refine h.closed.andThen (h.closed.ofOutcome _) fun _ => ?_
    refine h.closed.andThen (h.fetch target.2) fun doc => ?_
    cases doc with
    | none => exact h.closed.known _
    | some old => exact h.writeOver hlisted target.1 target.2 old _

theorem replace (doc : Value) : Anyway G (t.replace scope key doc) := by
  refine h.closed.andThen (h.closed.ofOutcome _) fun doc => ?_
  split_ifs
  · exact h.deleteRow hkey
  · refine h.report (h.closed.bind (h.rowTarget hkey) fun target hlisted => ?_)
    refine h.closed.andThen (h.closed.ofOutcome _) fun _ => ?_
    refine h.closed.andThen (h.fetch target.2) fun old => ?_
    cases old with
    | none =>
      exact h.closed.andThen (h.commit hlisted target.1 target.2 _ _) fun _ => h.closed.known _
    | some old => exact h.writeOver hlisted target.1 target.2 old _

end Rows

/-! ### Several rows -/

theorem deleteStream [LawfulMonad M] {scope : Scope} {keys : Option (KeyScope M)}
    {entries : List (Entry M)} (hkeys : ∀ k ∈ keys, OperandsTasks (Anyway G) k.keys)
    (hentries : EntriesTasks (Anyway G) entries) : Anyway G (t.deleteStream scope keys entries) := by
  refine h.closed.bind (h.closed.ofEntries hentries scope) fun pipeline hpipeline => ?_
  refine h.report (h.closed.bind h.loaded fun indexes hlisted => ?_)
  refine h.closed.andThen (h.documents hkeys) fun docs => ?_
  refine h.closed.andThen (h.closed.run hpipeline docs) fun answer => ?_
  cases answer with
  | array items => exact h.deleteItems hlisted indexes _ items
  | _ => exact h.closed.throw _

theorem insert (docs : Value) (choice : Option Conflict) : Anyway G (t.insert docs choice) := by
  refine h.closed.andThen (h.closed.ofOutcome _) fun docs => ?_
  have hload : G (Except Error IndexList) (fun loaded => ∀ l, loaded = .ok l → listed)
      (tryCatch (do return .ok (← t.indexes)) fun e => pure (.error e)) :=
    h.rescue (h.closed.bind h.loaded fun _ hlisted => h.closed.pure fun _ _ => hlisted)
      fun _ => h.closed.pure fun _ hl => by cases hl
  refine h.closed.bind hload fun loaded hlisted => ?_
  cases loaded with
  | error e => exact h.closed.ofOutcome _
  | ok indexes => exact h.each (fun doc => h.insertOne (hlisted indexes rfl) indexes _ doc) _ docs

/-! ### Indexes -/

/-- Every write of a rebuilt index is one that the table may make. -/
theorem rebuild (field primaryKey : String) :
    G _ (fun writes => ∀ w ∈ writes, w.Orderly t.name)
      (rebuild t.store t.name field primaryKey) := by
  refine h.closed.bind (h.scan _ (owns_stem (.primary t.name))) fun _ _ => ?_
  refine h.closed.andThen (h.closed.ofOutcome _) fun docs => h.closed.pure fun w hw => ?_
  obtain ⟨e, he, rfl⟩ := List.mem_map.mp hw
  obtain ⟨v, hv⟩ := (building_documents docs).places e he
  refine Write.orderly_cell (.index t.name field) v ?_
  rw [key_listWrite, hv, String.ofList_toList]

theorem createIndex (field : String) : Anyway G (t.createIndex field) := by
  refine h.closed.andThen (h.closed.ofOutcome _) fun _ => ?_
  refine h.closed.bind h.loaded fun indexes hlisted => ?_
  have hwrite : Anyway G (do
      let writes ← KeyValue.rebuild t.store t.name field indexes.primaryKey
      t.store.batch (writes ++ [(indexes.add field).record t.name])) := by
    refine h.closed.bind (h.rebuild field _) fun writes hwrites => h.batch hlisted _ fun w hw => ?_
    rcases List.mem_append.mp hw with hw | hw
    · exact hwrites w hw
    · exact List.mem_singleton.mp hw ▸ Write.orderly_record t.name _
  split_ifs
  · exact h.closed.andThen (h.closed.throw _) fun _ => hwrite
  · exact hwrite

theorem dropIndex (field : String) : Anyway G (t.dropIndex field) := by
  refine h.closed.bind h.loaded fun indexes hlisted => ?_
  have hwrite : Anyway G (do
      let entries ← t.store.scan (Space.index t.name field).stem
      t.store.batch (entries.map (fun e => Write.del e.1)
        ++ [(indexes.remove field).record t.name])) := by
    refine h.closed.bind (h.scan _ (owns_stem (.index t.name field))) fun entries hentries =>
      h.batch hlisted _ fun w hw => ?_
    rcases List.mem_append.mp hw with hw | hw
    · obtain ⟨e, he, rfl⟩ := List.mem_map.mp hw
      exact Write.orderly_del (hentries e he)
    · exact List.mem_singleton.mp hw ▸ Write.orderly_record t.name _
  split_ifs
  · exact h.closed.andThen (h.closed.throw _) fun _ => hwrite
  · exact hwrite

end EditsAt

/-! ## 4. Writes -/

/-- **The calls of a store at the keys of a table have a property,** and so have those at the table
    list, drawing an identifier, and a computation whose failures are caught. -/
structure WritesAt (G : (α : Type) → (α → Prop) → M α → Prop) (store : Store M) (t : String) :
    Prop extends ReadsAt G store t where
  tables : Anyway G (store.get Database.tablesKey)
  freshId : Anyway G store.freshId
  batch (writes : List Write)
    (h : ∀ w ∈ writes, Owns t w.key ∨ w.key = Database.tablesKey) : Anyway G (store.batch writes)
  rescue {α : Type} {Q : α → Prop} {x : M α} {f : Error → M α} (hx : G α Q x)
    (hf : ∀ e, G α Q (f e)) : G α Q (tryCatch x f)

namespace WritesAt

variable {G : (α : Type) → (α → Prop) → M α → Prop} {db : Database M} {name : String}

/-- Whether the table is listed does not matter. -/
theorem edits {t : Table M} (h : WritesAt G t.store t.name) : EditsAt G t.store t.name True where
  toReadsAt := h.toReadsAt
  loaded := h.indexes
  freshId := h.freshId
  batch _ writes hwrites := h.batch writes fun w hw => Or.inl (hwrites w hw).owned
  rescue := h.rescue

variable (h : WritesAt G db.store name)

include h

theorem tableNames : Anyway G db.tables := by
  refine h.closed.andThen h.tables fun text => ?_
  cases text with
  | none => exact h.closed.known _
  | some text => exact h.closed.ofOutcome _

theorem create (schema : Schema) : Anyway G (db.create name schema) := by
  refine h.closed.andThen (h.closed.ofOutcome _) fun _ => ?_
  refine h.closed.andThen h.tableNames fun names => ?_
  have hwrite (l : IndexList) : Anyway G (do
      db.store.batch (creation names name l)
      return db.table name schema) := by
    refine h.closed.andThen (h.batch _ fun w hw => ?_) fun _ => h.closed.known _
    rcases key_creation hw with hkey | hkey
    · exact Or.inl (hkey ▸ owns_named (.records name) _)
    · exact Or.inr hkey
  split_ifs
  · exact h.closed.andThen (h.closed.throw _) fun _ => hwrite _
  · exact hwrite _

theorem drop : Anyway G (db.drop name) := by
  refine h.closed.andThen h.tableNames fun names => ?_
  split_ifs
  · have howns : Owns name (Space.table name).stem := owns_stem (.table name)
    refine h.closed.bind (h.scan _ howns) fun entries hentries => h.batch _ fun w hw => ?_
    rcases List.mem_append.mp hw with hw | hw
    · obtain ⟨e, he, rfl⟩ := List.mem_map.mp hw
      exact Or.inl (howns.extend (hentries e he))
    · exact Or.inr (List.mem_singleton.mp hw ▸ rfl)
  · exact h.closed.known _

end WritesAt

end KeyValue

end QueryAlgebra
