import QueryAlgebra.Proofs.KeyValue.Listing
import QueryAlgebra.Proofs.KeyValue.Space

/-!
# Documents of a table

The rows of a table as the documents that a scan answers, and the index that is built from them.

* `Row`: a document that is stored under its primary key and can be read. The documents of a table of
  rows are its rows, each once (`exists_documents`).
* `Documents.lists`: the keys of the documents under a place are what an entry is to list.
* `rebuild_answer`: the writes of a rebuilt index settle every entry on those keys.
-/

namespace QueryAlgebra

namespace KeyValue

/-! ## 1. Documents of a table -/

/-- **A scan of a part answers what is stored at its places.** -/
theorem Space.mem_entries {m : Content} (hs : OrderedMap.Sorted m) {space : Space}
    {e : String × String} : e ∈ m.startingWith space.stem
      ↔ m.read e.1 = some e.2 ∧ ∃ p, e.1 = space.named p := by
  rw [← Space.stem_prefix]
  exact Content.mem_startingWith hs

/-- The writes that clear a part delete what is stored at its places. -/
theorem Space.mem_deletions {m : Content} (hs : OrderedMap.Sorted m) {space : Space} {w : Write}
    (hw : w ∈ (m.startingWith space.stem).map (fun e => Write.del e.1)) :
    w.value = none ∧ ∃ p, w.key = space.named p ∧ (m.read (space.named p)).isSome := by
  obtain ⟨e, he, rfl⟩ := List.mem_map.mp hw
  obtain ⟨hread, p, hp⟩ := (Space.mem_entries hs).mp he
  refine ⟨rfl, p, hp, ?_⟩
  rw [← hp, hread]
  rfl

/-- The primary key of a document. -/
def primaryOf (primaryKey : String) (doc : Fields) : Value := (doc.get? primaryKey).getD .null

/-- A document that is stored under its primary key and can be read. -/
structure Row (P : String → Prop) (primaryKey place : String) (doc : Fields) : Prop where
  storable : doc.Storable
  known : P place
  key : ∃ key, doc.get? primaryKey = some key ∧ key.fingerprint = place

/-- Rows with another document of the right key are rows of their keys. -/
theorem Rows.row_write {P : String → Prop} {primaryKey place : String} {rows : Rows}
    {new : Option Fields} (hrows : ∀ p doc, rows p = some doc → Row P primaryKey p doc)
    (hnew : ∀ doc, new = some doc → Row P primaryKey place doc) {p : String} {doc : Fields}
    (hdoc : rows.write place new p = some doc) : Row P primaryKey p doc := by
  unfold Rows.write at hdoc
  split at hdoc
  · next hp => exact hp ▸ hnew doc hdoc
  · exact hrows p doc hdoc

/-- The primary keys of the documents that stand under a place of an index. -/
def keysUnder (primaryKey field place : String) (docs : List Fields) : List Value :=
  (docs.filter (fun doc => placeIn field (some doc) = some place)).map (primaryOf primaryKey)

/-- **The keys under a place are those of its rows,** when the documents are the rows under their own
    keys, each once. -/
theorem owners_keysUnder {rows : Rows} {primaryKey : String} {docs : List Fields}
    (hnodup : (docs.map (fun doc => (primaryOf primaryKey doc).fingerprint)).Nodup)
    (hrows : ∀ p doc, rows p = some doc
      ↔ doc ∈ docs ∧ (primaryOf primaryKey doc).fingerprint = p) (field place : String) :
    Owners rows field place (keysUnder primaryKey field place docs) := by
  unfold keysUnder
  refine ⟨?_, fun p => ?_⟩
  · rw [List.map_map]
    exact ((List.filter_sublist).map _).nodup hnodup
  · simp only [List.map_map, List.mem_map, List.mem_filter, decide_eq_true_eq, Function.comp_apply]
    constructor
    · rintro ⟨doc, ⟨hdoc, hplace⟩, hp⟩
      rw [(hrows p doc).mpr ⟨hdoc, hp⟩, hplace]
    · intro hplace
      cases hp : rows p with
      | none =>
        rw [hp] at hplace
        cases hplace
      | some doc =>
        obtain ⟨hdoc, hfingerprint⟩ := (hrows p doc).mp hp
        exact ⟨doc, ⟨hdoc, hp ▸ hplace⟩, hfingerprint⟩

/-- How a document stands in the store. -/
def documentEntry (t primaryKey : String) (doc : Fields) : String × String :=
  ((Space.primary t).key (primaryOf primaryKey doc), (Value.object doc).json)

/-- The documents of a table are its rows, each once, and a scan finds them under their keys. -/
structure Documents (m : Content) (t primaryKey : String) (rows : Rows) (docs : List Fields) :
    Prop where
  scanned : m.startingWith (Space.primary t).stem = docs.map (documentEntry t primaryKey)
  mem : ∀ doc, doc ∈ docs ↔ ∃ p, rows p = some doc
  nodup : (docs.map (fun doc => (primaryOf primaryKey doc).fingerprint)).Nodup

section Documents

variable {P : String → Prop} {m : Content} {t primaryKey place : String} {rows : Rows}
  {docs : List Fields}

theorem Row.primaryOf_fingerprint {doc : Fields} (h : Row P primaryKey place doc) :
    (primaryOf primaryKey doc).fingerprint = place := by
  obtain ⟨key, hkey, hplace⟩ := h.key
  rw [primaryOf, hkey]
  exact hplace

theorem Row.primaryOf_storable {doc : Fields} (h : Row P primaryKey place doc) :
    (primaryOf primaryKey doc).Storable := by
  obtain ⟨key, hkey, -⟩ := h.key
  rw [primaryOf, hkey]
  exact h.storable.get? hkey

/-- A list of images is the image of a list. -/
theorem exists_map_eq {α β : Type} {f : α → β} {p : α → Prop} {bs : List β}
    (h : ∀ b ∈ bs, ∃ a, p a ∧ f a = b) : ∃ as : List α, bs = as.map f ∧ ∀ a ∈ as, p a := by
  induction bs with
  | nil => exact ⟨[], rfl, fun a ha => absurd ha List.not_mem_nil⟩
  | cons b bs ih =>
    obtain ⟨⟨a, ha, rfl⟩, hrest⟩ := List.forall_mem_cons.mp h
    obtain ⟨as, rfl, has⟩ := ih hrest
    exact ⟨a :: as, rfl, List.forall_mem_cons.mpr ⟨ha, has⟩⟩

theorem exists_documents (hs : OrderedMap.Sorted m)
    (hstored : ∀ p, m.read ((Space.primary t).named p)
      = (rows p).map (fun doc => (Value.object doc).json))
    (hrows : ∀ p doc, rows p = some doc → Row P primaryKey p doc) :
    ∃ docs, Documents m t primaryKey rows docs := by
  have hentry : ∀ {p doc}, rows p = some doc →
      (documentEntry t primaryKey doc).1 = (Space.primary t).named p :=
    fun hdoc => congrArg (Space.primary t).named (hrows _ _ hdoc).primaryOf_fingerprint
  have hfound : ∀ e ∈ m.startingWith (Space.primary t).stem,
      ∃ doc, (∃ p, rows p = some doc) ∧ documentEntry t primaryKey doc = e := by
    intro e he
    obtain ⟨hread, p, hp⟩ := (Space.mem_entries hs).mp he
    rw [hp, hstored] at hread
    obtain ⟨doc, hdoc, htext⟩ := Option.map_eq_some_iff.mp hread
    exact ⟨doc, ⟨p, hdoc⟩, Prod.ext ((hentry hdoc).trans hp.symm) htext⟩
  obtain ⟨docs, hscan, hdocs⟩ := exists_map_eq hfound
  refine ⟨docs, hscan, fun doc => ⟨hdocs doc, ?_⟩, ?_⟩
  · rintro ⟨p, hdoc⟩
    have hmem : ((Space.primary t).named p, (Value.object doc).json)
        ∈ m.startingWith (Space.primary t).stem := by
      refine (Space.mem_entries hs).mpr ⟨?_, p, rfl⟩
      rw [hstored, hdoc]
      rfl
    rw [hscan] at hmem
    obtain ⟨doc', hdoc', heq⟩ := List.mem_map.mp hmem
    have hobject : Value.object doc' = Value.object doc :=
      Value.json_injective (congrArg Prod.snd heq)
    exact Value.object.inj hobject ▸ hdoc'
  · have hnodup := Content.nodup_startingWith hs (Space.primary t).stem
    rw [hscan, List.map_map] at hnodup
    refine List.Nodup.of_map (Space.primary t).named ?_
    rw [List.map_map]
    exact hnodup

theorem Documents.storable (h : Documents m t primaryKey rows docs)
    (hrows : ∀ p doc, rows p = some doc → Row P primaryKey p doc) :
    ∀ doc ∈ docs, doc.Storable := by
  intro doc hdoc
  obtain ⟨p, hp⟩ := (h.mem doc).mp hdoc
  exact (hrows p doc hp).storable

theorem Documents.read (h : Documents m t primaryKey rows docs)
    (hrows : ∀ p doc, rows p = some doc → Row P primaryKey p doc) :
    (m.startingWith (Space.primary t).stem).mapM (fun e => readDocument e.2) = .ok docs := by
  have hread : ∀ doc ∈ docs, readDocument (documentEntry t primaryKey doc).2 = .ok doc :=
    fun doc hdoc => readDocument_json (h.storable hrows doc hdoc)
  have hall := mapM_map_eq_ok (f := documentEntry t primaryKey) (g := fun e => readDocument e.2)
    (k := id) hread
  rw [h.scanned, hall, List.map_id]

/-- A scan of the table answers its documents. -/
theorem Documents.scan {table : Table Session} (h : Documents m table.name primaryKey rows docs)
    (hrows : ∀ p doc, rows p = some doc → Row P primaryKey p doc) :
    table.snapshot.scan m = .ok (docs.map .object) := by
  have hread : ∀ doc ∈ docs,
      readRecord (documentEntry table.name primaryKey doc).2 = .ok (.object doc) :=
    fun doc hdoc => readRecord_json (h.storable hrows doc hdoc) trivial
  unfold Table.scan
  rw [Snapshot.bind_apply]
  show (ofOutcome ((m.startingWith (Space.primary table.name).stem).mapM
    (fun e => readRecord e.2)) : Snapshot (List Value)) m = _
  rw [Snapshot.ofOutcome_apply, h.scanned]
  exact mapM_map_eq_ok hread

/-- **The keys of the documents under a place are the keys of the rows under it.** -/
theorem Documents.lists (h : Documents m t primaryKey rows docs)
    (hrows : ∀ p doc, rows p = some doc → Row P primaryKey p doc) (field place : String) :
    Lists rows field place (keysUnder primaryKey field place docs) := by
  refine (owners_keysUnder h.nodup (fun p doc => ⟨fun hp => ?_, ?_⟩) field place).lists ?_
  · exact ⟨(h.mem doc).mpr ⟨p, hp⟩, (hrows p doc hp).primaryOf_fingerprint⟩
  · rintro ⟨hdoc, rfl⟩
    obtain ⟨q, hq⟩ := (h.mem doc).mp hdoc
    rw [(hrows q doc hq).primaryOf_fingerprint, hq]
  · intro k hk
    obtain ⟨doc, hdoc, rfl⟩ := List.mem_map.mp hk
    obtain ⟨p, hp⟩ := (h.mem doc).mp (List.mem_filter.mp hdoc).1
    exact (hrows p doc hp).primaryOf_storable

end Documents

/-! ## 2. Rebuilding -/

/-- The lists of an index under construction: in order, and only at places of values. -/
structure Building (t field : String) (lists : OrderedMap Char (List Value)) : Prop where
  sorted : OrderedMap.Sorted lists
  places : ∀ e ∈ lists, ∃ v, e.1 = ((Space.index t field).key v).toList

/-- The list at a place of an index under construction. -/
def listAt (t field place : String) (lists : OrderedMap Char (List Value)) : List Value :=
  (OrderedMap.get? lists ((Space.index t field).named place).toList).getD []

section Rebuild

variable {m : Content} {t field primaryKey : String} {lists : OrderedMap Char (List Value)}

theorem Building.add (h : Building t field lists) (v key : Value) :
    Building t field (addToList lists ((Space.index t field).key v) key) := by
  refine ⟨OrderedMap.sorted_put h.sorted _ _, fun e he => ?_⟩
  rcases OrderedMap.mem_put he with rfl | he
  · exact ⟨v, rfl⟩
  · exact h.places e he

theorem listAt_addToList (v key : Value) (place : String) :
    listAt t field place (addToList lists ((Space.index t field).key v) key)
      = if v.fingerprint = place then listAt t field place lists ++ [key]
        else listAt t field place lists := by
  unfold listAt addToList
  rw [OrderedMap.get?_put]
  by_cases hplace : v.fingerprint = place
  · subst hplace
    have hkey : ((Space.index t field).key v).toList
        = ((Space.index t field).named v.fingerprint).toList := rfl
    rw [if_pos hkey, if_pos rfl]
    rfl
  · have hne : ((Space.index t field).key v).toList ≠ ((Space.index t field).named place).toList :=
      fun heq => hplace (Space.named_injective (String.toList_inj.mp heq))
    rw [if_neg hne, if_neg hplace]

theorem Building.addDocument (h : Building t field lists) (doc : Fields) :
    Building t field (addDocument t field primaryKey lists doc) := by
  unfold KeyValue.addDocument
  split
  · exact h.add _ _
  · exact h

theorem building_documents (docs : List Fields) :
    Building t field (docs.foldl (addDocument t field primaryKey) []) := by
  have hstep : ∀ lists, Building t field lists →
      Building t field (docs.foldl (addDocument t field primaryKey) lists) := by
    induction docs with
    | nil => exact fun _ h => h
    | cons doc docs ih => exact fun lists h => ih _ (h.addDocument doc)
  exact hstep [] ⟨List.Pairwise.nil, fun e he => absurd he List.not_mem_nil⟩

/-- **A document is added at its place.** -/
theorem listAt_addDocument {doc : Fields} (hdoc : (doc.get? primaryKey).isSome) (place : String) :
    listAt t field place (addDocument t field primaryKey lists doc)
      = listAt t field place lists ++ keysUnder primaryKey field place [doc] := by
  obtain ⟨key, hkey⟩ := Option.isSome_iff_exists.mp hdoc
  unfold addDocument keysUnder placeIn
  cases hv : indexed (some doc) field with
  | none => simp [hv]
  | some v =>
    simp only [hkey]
    rw [listAt_addToList]
    split
    · next hplace => simp [hv, hplace, primaryOf, hkey]
    · next hplace => simp [hv, hplace]

theorem listAt_addDocuments {docs : List Fields}
    (hdocs : ∀ doc ∈ docs, (doc.get? primaryKey).isSome) (place : String) :
    listAt t field place (docs.foldl (addDocument t field primaryKey) lists)
      = listAt t field place lists ++ keysUnder primaryKey field place docs := by
  induction docs generalizing lists with
  | nil => exact (List.append_nil _).symm
  | cons doc docs ih =>
    obtain ⟨hdoc, hrest⟩ := List.forall_mem_cons.mp hdocs
    rw [List.foldl_cons, ih hrest, listAt_addDocument hdoc, List.append_assoc]
    have hsplit : doc :: docs = [doc] ++ docs := rfl
    rw [hsplit, keysUnder, keysUnder, keysUnder, List.filter_append, List.map_append]

/-- **The writes of a rebuilt index go to entries of the index.** -/
theorem key_rebuild {ws : List Write}
    (h : rebuild Snapshot.store t field primaryKey m = .ok ws) :
    ∀ w ∈ ws, ∃ v, w.key = (Space.index t field).key v := by
  unfold rebuild at h
  rw [Snapshot.bind_apply, Snapshot.scan_apply, ok_bind, Snapshot.bind_apply,
    Snapshot.ofOutcome_apply] at h
  obtain ⟨docs, -, h⟩ := bind_eq_ok.mp h
  cases h
  intro w hw
  obtain ⟨e, he, rfl⟩ := List.mem_map.mp hw
  obtain ⟨v, hv⟩ := (building_documents docs).places e he
  exact ⟨v, by rw [key_listWrite, hv, String.ofList_toList]⟩

/-- **The writes of a rebuilt index settle every entry on the keys under it.** -/
theorem rebuild_answer {docs : List Fields}
    (hread : (m.startingWith (Space.primary t).stem).mapM (fun e => readDocument e.2) = .ok docs)
    (hdocs : ∀ doc ∈ docs, (doc.get? primaryKey).isSome)
    (hblank : ∀ place, m.read ((Space.index t field).named place) = none) :
    ∃ ws, rebuild Snapshot.store t field primaryKey m = .ok ws
      ∧ ∀ place, Content.Settles m ws ((Space.index t field).named place)
          (entryText (keysUnder primaryKey field place docs)) := by
  have hbuilding : Building t field (docs.foldl (addDocument t field primaryKey) []) :=
    building_documents docs
  have hlist := fun place => @listAt_addDocuments t field primaryKey [] docs hdocs place
  have hanswer : rebuild Snapshot.store t field primaryKey m
      = .ok ((docs.foldl (addDocument t field primaryKey) []).map
        (fun e => listWrite (String.ofList e.1) e.2)) := by
    unfold rebuild
    rw [Snapshot.bind_apply, Snapshot.scan_apply, ok_bind, Snapshot.bind_apply,
      Snapshot.ofOutcome_apply, hread]
    rfl
  have hplace : ∀ {w : Write} {e : List Char × List Value},
      listWrite (String.ofList e.1) e.2 = w → w.key = String.ofList e.1 ∧ w.value = entryText e.2 := by
    rintro w e rfl
    exact ⟨key_listWrite _ _, value_listWrite _ _⟩
  refine ⟨_, hanswer, fun place => ⟨?_, ?_⟩⟩
  · intro w hw hkey
    obtain ⟨e, he, heq⟩ := List.mem_map.mp hw
    rw [(hplace heq).1] at hkey
    have hchars : e.1 = ((Space.index t field).named place).toList := by
      rw [← hkey, String.toList_ofList]
    have hget := OrderedMap.get?_of_mem hbuilding.sorted (show (e.1, e.2) ∈ _ from he)
    have hkeys : listAt t field place (docs.foldl (addDocument t field primaryKey) []) = e.2 := by
      rw [listAt, ← hchars, hget]
      rfl
    rw [(hplace heq).2, ← hkeys, hlist]
    rfl
  · intro hother
    have hnone : OrderedMap.get? (docs.foldl (addDocument t field primaryKey) [])
        ((Space.index t field).named place).toList = none := by
      refine OrderedMap.get?_eq_none (fun e he hchars => ?_)
      refine hother _ (List.mem_map.mpr ⟨e, he, rfl⟩) ?_
      rw [(hplace rfl).1, hchars, String.ofList_toList]
    have hempty : keysUnder primaryKey field place docs = [] := by
      have hnil := hlist place
      rw [listAt, hnone] at hnil
      exact hnil.symm
    rw [hblank, hempty]
    rfl

end Rebuild

end KeyValue

end QueryAlgebra
