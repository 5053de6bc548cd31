import QueryAlgebra.Proofs.KeyValue.Commit
import QueryAlgebra.Proofs.KeyValue.OwnKeys

/-!
# An index built again

An index that is dropped leaves nothing behind, and one that is created again from the stored rows
lists under every value the keys that it listed before: a rebuild groups the rows of a scan, a commit
moves one key, and both come to the keys of the rows.

* `exists_scanned`: the documents of a table whose rows stand under their own keys.
* `read_dropped_entry`, `read_relist_other`: what the two batches write, and what they leave.
* `index_rebuilt`: dropping and creating an index.
-/

namespace QueryAlgebra

namespace KeyValue

/-! ## 1. Rows under their own keys -/

/-- Under every value, the null value among them, the index lists the keys of the rows that have it. -/
def Faithful (m : Content) (t f : String) : Prop :=
  ∀ v : Value, ∃ keys, lookup Snapshot.store t f v m = .ok keys ∧
    Owners (storedRows m t) f v.fingerprint keys

/-- The documents of a scan are the rows of a table under their own keys, each once. -/
structure Scanned (m : Content) (t primaryKey : String) (docs : List Fields) : Prop where
  read : (m.startingWith (Space.primary t).stem).mapM (fun e => readDocument e.2) = .ok docs
  nodup : (docs.map (fun doc => (primaryOf primaryKey doc).fingerprint)).Nodup
  rows : ∀ p doc, storedRows m t p = some doc
    ↔ doc ∈ docs ∧ (primaryOf primaryKey doc).fingerprint = p
  keyed : ∀ doc ∈ docs, (doc.get? primaryKey).isSome

/-- The document of a record, without fields where there is none. -/
def documentOf (e : String × String) : Fields := (readDocument e.2).toOption.getD []

section Scan

variable {m : Content} {t primaryKey : String} (hs : OrderedMap.Sorted m)

include hs

theorem exists_scanned (hrows : ∀ e ∈ m.startingWith (Space.primary t).stem, ∃ doc key,
    readDocument e.2 = .ok doc ∧ doc.get? primaryKey = some key ∧ key.isNull = false ∧
      e.1 = (Space.primary t).key key) : ∃ docs, Scanned m t primaryKey docs := by
  have hentry : ∀ e ∈ m.startingWith (Space.primary t).stem,
      readDocument e.2 = .ok (documentOf e) ∧ ((documentOf e).get? primaryKey).isSome ∧
        (Space.primary t).named (primaryOf primaryKey (documentOf e)).fingerprint = e.1 := by
    intro e he
    obtain ⟨doc, key, hread, hkey, -, hplace⟩ := hrows e he
    have hdoc : documentOf e = doc := by
      rw [documentOf, hread]
      rfl
    rw [hdoc, primaryOf, hkey, hplace]
    exact ⟨hread, rfl, rfl⟩
  refine ⟨(m.startingWith (Space.primary t).stem).map documentOf, ?_, ?_, fun p doc => ?_, ?_⟩
  · have hread : ∀ e ∈ m.startingWith (Space.primary t).stem,
        readDocument (Prod.snd e) = .ok (documentOf e) := fun e he => (hentry e he).1
    have hall := mapM_map_eq_ok hread
    rwa [List.mapM_map] at hall
  · have hkeys : (m.startingWith (Space.primary t).stem).map
          (fun e => (Space.primary t).named (primaryOf primaryKey (documentOf e)).fingerprint)
        = (m.startingWith (Space.primary t).stem).map Prod.fst :=
      List.map_congr_left fun e he => (hentry e he).2.2
    refine List.Nodup.of_map (Space.primary t).named ?_
    rw [List.map_map, List.map_map]
    exact hkeys ▸ Content.nodup_startingWith hs _
  · unfold storedRows
    rw [List.mem_map]
    constructor
    · intro hdoc
      obtain ⟨text, hread, htext⟩ := Option.bind_eq_some_iff.mp hdoc
      have hmem : ((Space.primary t).named p, text) ∈ m.startingWith (Space.primary t).stem :=
        (Space.mem_entries hs).mpr ⟨hread, p, rfl⟩
      have hfound : documentOf ((Space.primary t).named p, text) = doc := by
        rw [documentOf, htext]
        rfl
      have hplace := (hentry _ hmem).2.2
      rw [hfound] at hplace
      exact ⟨⟨_, hmem, hfound⟩, Space.named_injective hplace⟩
    · rintro ⟨⟨e, he, rfl⟩, rfl⟩
      obtain ⟨hread, -, hplace⟩ := hentry e he
      rw [hplace, ((Space.mem_entries hs).mp he).1, Option.bind_some, hread]
      rfl
  · intro doc hdoc
    obtain ⟨e, he, rfl⟩ := List.mem_map.mp hdoc
    exact (hentry e he).2.1

end Scan

theorem Scanned.owners {m : Content} {t primaryKey : String} {docs : List Fields}
    (h : Scanned m t primaryKey docs) (field place : String) :
    Owners (storedRows m t) field place (keysUnder primaryKey field place docs) :=
  owners_keysUnder h.nodup h.rows field place

/-! ## 2. The two batches -/

section Batches

variable {m : Content} {t f : String} {l : IndexList} (hs : OrderedMap.Sorted m)

include hs

theorem key_deletion {w : Write}
    (hw : w ∈ (m.startingWith (Space.index t f).stem).map (fun e => Write.del e.1)) :
    ∃ p, w.key = (Space.index t f).named p := by
  obtain ⟨-, p, hkey, -⟩ := Space.mem_deletions hs hw
  exact ⟨p, hkey⟩

/-- **A dropped index leaves no entry.** -/
theorem read_dropped_entry (p : String) :
    (m.applyAll (removal m t f l)).read ((Space.index t f).named p) = none := by
  have hrecord : ∀ w ∈ [(l.remove f).record t], w.key ≠ (Space.index t f).named p := by
    intro w hw
    rw [key_record hw]
    exact (Space.entry_ne_record t f p _).symm
  refine Content.Sets.read (Content.Sets.append_other ⟨fun w hw _ => (Space.mem_deletions hs hw).1,
    ?_⟩ hrecord) hs
  intro hother
  by_contra hsome
  obtain ⟨text, htext⟩ := Option.ne_none_iff_exists'.mp hsome
  have hmem : ((Space.index t f).named p, text) ∈ m.startingWith (Space.index t f).stem :=
    (Space.mem_entries hs).mpr ⟨htext, p, rfl⟩
  exact hother _ (List.mem_map.mpr ⟨_, hmem, rfl⟩) rfl

theorem read_dropped_other {k : String} (hentry : ∀ p, k ≠ (Space.index t f).named p)
    (hrecord : k ≠ (Space.records t).named indexListName) :
    (m.applyAll (removal m t f l)).read k = m.read k :=
  read_relist_other hs (fun _ hw => key_deletion hs hw) hentry hrecord

theorem loadIndexes_dropped :
    loadIndexes Snapshot.store t (m.applyAll (removal m t f l)) = .ok (l.remove f) :=
  loadIndexes_of_record (read_relist_record hs (fun _ hw => key_deletion hs hw))

end Batches

section Operations

variable {t : Table Session} (ht : t.store = Memory.store) {m : Content} {f : String}
  {l : IndexList}

include ht

theorem leads_dropIndex (hl : loadIndexes Snapshot.store t.name m = .ok l) (hf : f ∈ l.secondary) :
    Leads (fun r m' => r = .ok () ∧ m' = m.applyAll (removal m t.name f l)) m
      (t.dropIndex f) := by
  refine Leads.bind_answer (reads_indexes ht) hl ?_
  have hhas : l.has f = true := by simpa [IndexList.has] using hf
  rw [hhas, ht]
  exact Leads.bind_answer (Reads.scan _) rfl (Leads.batch ⟨rfl, rfl⟩)

theorem leads_createIndex (hl : loadIndexes Snapshot.store t.name m = .ok l)
    (hname : checkName "index" f = .ok ()) (hprimary : f ≠ l.primaryKey) (hf : f ∉ l.secondary)
    {ws : List Write} (hws : rebuild Snapshot.store t.name f l.primaryKey m = .ok ws) :
    Leads (fun r m' => r = .ok () ∧ m' = m.applyAll (ws ++ [(l.add f).record t.name])) m
      (t.createIndex f) := by
  refine Leads.bind_answer (Reads.ofOutcome _) (by rw [Snapshot.ofOutcome_apply, hname]) ?_
  refine Leads.bind_answer (reads_indexes ht) hl ?_
  have hnot : (decide (f = l.primaryKey) || l.has f) = false := by
    simp [IndexList.has, hprimary, hf]
  rw [hnot, ht]
  exact Leads.bind_answer (reads_rebuild _ _ _) hws (Leads.batch ⟨rfl, rfl⟩)

end Operations

/-! ## 3. Dropped and created again -/

/-- **What is left** when an index has been dropped, and when it has been created again. -/
structure Rebuilt (m : Content) (t f : String) (l : IndexList) (dropped created : Content) :
    Prop where
  /-- Nothing is under the stem of the dropped index. -/
  gone : dropped.startingWith (Space.index t f).stem = []
  /-- Under every value the created index lists the keys of before, each once. -/
  lookups : ∀ v, ∃ before after, lookup Snapshot.store t f v m = .ok before ∧
    lookup Snapshot.store t f v created = .ok after ∧
    (after.map Value.fingerprint).Nodup ∧
    (after.map Value.fingerprint).Perm (before.map Value.fingerprint)
  /-- The rows are those of before. -/
  rows : ∀ p, created.read ((Space.primary t).named p) = m.read ((Space.primary t).named p)
  /-- So are the entries of the other indexes. -/
  others : ∀ g ∈ l.secondary, g ≠ f → ∀ p,
    created.read ((Space.index t g).named p) = m.read ((Space.index t g).named p)
  /-- The index comes last in the list. -/
  indexes : loadIndexes Snapshot.store t created = .ok ((l.remove f).add f)

/-- The primary keys of the rows that have a value in a field are read back from their own texts. -/
def RowKeysReadBack (m : Content) (t f primaryKey : String) : Prop :=
  ∀ p doc key, storedRows m t p = some doc → (indexed (some doc) f).isSome →
    doc.get? primaryKey = some key → key.Storable

theorem Scanned.storable_keysUnder {m : Content} {t f primaryKey : String} {docs : List Fields}
    (h : Scanned m t primaryKey docs) (hkeys : RowKeysReadBack m t f primaryKey) (place : String) :
    ∀ k ∈ keysUnder primaryKey f place docs, k.Storable := by
  intro k hk
  obtain ⟨doc, hmem, rfl⟩ := List.mem_map.mp hk
  obtain ⟨hdoc, hplace⟩ := List.mem_filter.mp hmem
  obtain ⟨key, hkey⟩ := Option.isSome_iff_exists.mp (h.keyed doc hdoc)
  have hvalue : (indexed (some doc) f).isSome := by
    obtain ⟨v, hv, -⟩ := Option.map_eq_some_iff.mp (of_decide_eq_true hplace)
    rw [hv]
    rfl
  rw [primaryOf, hkey]
  exact hkeys _ doc key ((h.rows _ doc).mpr ⟨hdoc, rfl⟩) hvalue hkey

/-- **A rebuild after a drop comes to the lists of before.** -/
theorem exists_rebuilt {m : Content} (hs : OrderedMap.Sorted m) {t f : String} {l : IndexList}
    {docs : List Fields} (hdocs : Scanned m t l.primaryKey docs) (hfaithful : Faithful m t f)
    (hkeys : RowKeysReadBack m t f l.primaryKey) (hf : Plain f)
    (hplain : ∀ g ∈ l.secondary, Plain g) :
    let dropped := m.applyAll (removal m t f l)
    ∃ ws, rebuild Snapshot.store t f l.primaryKey dropped = .ok ws ∧
      Rebuilt m t f l dropped (dropped.applyAll (ws ++ [((l.remove f).add f).record t])) := by
  intro dropped
  have hsorted : OrderedMap.Sorted dropped := Content.sorted_applyAll hs _
  have hrow : ∀ p, dropped.read ((Space.primary t).named p) = m.read ((Space.primary t).named p) :=
    fun p => read_dropped_other hs (Space.row_ne_entry t f p) (Space.row_ne_record t p _)
  have hscan : dropped.startingWith (Space.primary t).stem
      = m.startingWith (Space.primary t).stem := by
    refine Content.startingWith_congr hs hsorted fun key hprefix => ?_
    obtain ⟨p, rfl⟩ := Space.stem_prefix.mp hprefix
    exact hrow p
  obtain ⟨ws, hws, hsettles⟩ := rebuild_answer (t := t) (m := dropped) (hscan ▸ hdocs.read)
    hdocs.keyed (fun p => read_dropped_entry hs p)
  have hentries : ∀ w ∈ ws, ∃ p, w.key = (Space.index t f).named p := by
    intro w hw
    obtain ⟨v, hv⟩ := key_rebuild hws w hw
    exact ⟨_, hv⟩
  refine ⟨ws, hws, ?_, fun v => ?_, fun p => ?_, fun g hg hne p => ?_, ?_⟩
  · refine Content.startingWith_eq_nil hsorted fun key hprefix => ?_
    obtain ⟨p, rfl⟩ := Space.stem_prefix.mp hprefix
    exact read_dropped_entry hs p
  · obtain ⟨before, hbefore, howners⟩ := hfaithful v
    have hrecord : ∀ w ∈ [((l.remove f).add f).record t],
        w.key ≠ (Space.index t f).named v.fingerprint := by
      intro w hw
      rw [key_record hw]
      exact (Space.entry_ne_record t f _ _).symm
    have hread := ((hsettles v.fingerprint).append_other hrecord).read hsorted
    have hafter := hdocs.owners f v.fingerprint
    exact ⟨before, _, hbefore, lookup_of_entry hread (hdocs.storable_keysUnder hkeys _),
      hafter.nodup, hafter.perm howners⟩
  · have hentry := Space.row_ne_entry t f p
    have hrecord := Space.row_ne_record t p indexListName
    exact (read_relist_other hsorted hentries hentry hrecord).trans (hrow p)
  · have hentry := Space.entry_ne_entry (hplain g hg) hf hne t p
    have hrecord := Space.entry_ne_record t g p indexListName
    exact (read_relist_other hsorted hentries hentry hrecord).trans
      (read_dropped_other hs hentry hrecord)
  · exact loadIndexes_of_record (read_relist_record hsorted hentries)

/-- **An index that is dropped and created again is the index of before.** In a session without faults,
    for a table whose rows stand under their own keys and an index that lists the keys of its rows:
    when those keys are read back, then both succeed, nothing of the index is left in between, it
    lists the same keys afterwards, and the rows and the other indexes have not changed. -/
theorem index_rebuilt {t : Table Session} (ht : t.store = Memory.store) {config : Config}
    {s : Memory} (hhealthy : Healthy s) (hs : OrderedMap.Sorted s.content) {l : IndexList}
    (hown : OwnKeys config s t.name l) (hnames : ∀ g ∈ l.secondary, checkName "index" g = .ok ())
    (hdistinct : l.primaryKey ∉ l.secondary) {f : String} (hf : f ∈ l.secondary)
    (hfaithful : Faithful s.content t.name f)
    (hkeys : RowKeysReadBack s.content t.name f l.primaryKey) :
    let dropped := (t.dropIndex f).on s
    let created := (t.createIndex f).on dropped.2
    dropped.1 = .ok () ∧ created.1 = .ok () ∧
      Rebuilt s.content t.name f l dropped.2.content created.2.content := by
  intro dropped created
  have hl := hown.loadIndexes hhealthy
  have hplain : ∀ g ∈ l.secondary, Plain g := fun g hg => plain_of_checkName (hnames g hg)
  have hprimary : f ≠ l.primaryKey := fun heq => hdistinct (heq ▸ hf)
  have hgone : f ∉ (l.remove f).secondary := by simp [IndexList.remove, hprimary]
  obtain ⟨docs, hdocs⟩ := exists_scanned hs hown.rows
  obtain ⟨ws, hws, hrebuilt⟩ := exists_rebuilt hs hdocs hfaithful hkeys (hplain f hf) hplain
  obtain ⟨hhealthy', hok, hcontent⟩ := leads_dropIndex ht hl hf s hhealthy rfl
  obtain ⟨-, hok', hcontent'⟩ := leads_createIndex ht (loadIndexes_dropped hs) (hnames f hf) hprimary
    hgone hws dropped.2 hhealthy' hcontent
  exact ⟨hok, hok', hcontent' ▸ hcontent ▸ hrebuilt⟩

/-! ### Two things, and a double -/

section Consistent

variable {P : String → Prop} {m : Content} {t f : String} {l : IndexList} {rows : Rows}
  (h : TableAt P m t l rows)

include h

theorem TableAt.storedRows : storedRows m t = rows := by
  funext p
  unfold KeyValue.storedRows
  rw [h.stored]
  cases hdoc : rows p with
  | none => rfl
  | some doc =>
    rw [Option.map_some, Option.bind_some, readDocument_json (h.row p doc hdoc).storable]
    rfl

theorem TableAt.faithful (hf : f ∈ l.secondary) : Faithful m t f := by
  intro v
  obtain ⟨keys, hread, hlists⟩ := h.entries f hf v.fingerprint
  exact ⟨keys, lookup_of_entry hread hlists.storable, h.storedRows ▸ hlists.toOwners⟩

theorem TableAt.rowKeysReadBack : RowKeysReadBack m t f l.primaryKey := by
  intro p doc key hdoc _ hkey
  rw [h.storedRows] at hdoc
  exact (h.row p doc hdoc).storable.get? hkey

end Consistent

/-- A session with two things. -/
def twoThings : Memory :=
  runAll {} oneThing [insertRed 2 (by decide)]

theorem twoThings_ordinary :
    Reachable {} (fun _ p => ∃ k, OrdinaryKey k ∧ k.fingerprint = p) {} twoThings := by
  have hcreate := (@Reachable.start {} (fun _ p => ∃ k, OrdinaryKey k ∧ k.fingerprint = p) {}).step
    createThings trivial
  have hfirst := hcreate.step (insertRed 1 (by decide)) (insertRed_admissible _ _ (by decide))
  exact hfirst.step (insertRed 2 (by decide)) (insertRed_admissible _ _ (by decide))

theorem twoThings_nonNull : Reachable {} (fun _ => NonNull) {} twoThings :=
  oneThing_reachable.step (insertRed 2 (by decide)) (insertRed_ownKeys _ _ (by decide))

theorem twoThings_indexes :
    (Database.tables ⟨Snapshot.store, {}⟩ twoThings.content).toOption = some ["things"] ∧
      (loadIndexes Snapshot.store "things" twoThings.content).toOption
        = some ⟨"id", ["colour"]⟩ := by decide +kernel

/-- Two things are a consistent table with an index on their colour. -/
theorem twoThings_consistent : Healthy twoThings ∧ ∃ T,
    Consistent (fun _ p => ∃ k, OrdinaryKey k ∧ k.fingerprint = p) twoThings.content T ∧
      "things" ∈ T.names ∧ T.lists "things" = ⟨"id", ["colour"]⟩ := by
  obtain ⟨htables, hlist⟩ := twoThings_indexes
  obtain ⟨hs, T, hT⟩ := twoThings_ordinary.sound (fun _ => apart_ordinary) ⟨rfl⟩ rfl
  have hthings : "things" ∈ T.names := by
    rw [tables_answer hT.identified {}] at htables
    exact Option.some.inj htables ▸ List.mem_singleton.mpr rfl
  refine ⟨hs, T, hT, hthings, ?_⟩
  rw [loadIndexes_of_record (hT.table "things" hthings).record] at hlist
  exact Option.some.inj hlist

/-- They stand under their own keys. -/
theorem twoThings_ownKeys : OwnKeys {} twoThings "things" ⟨"id", ["colour"]⟩ := by
  obtain ⟨htables, hlist⟩ := twoThings_indexes
  obtain ⟨hs, T, hT⟩ := twoThings_nonNull.identified (fun _ => nonNull_string) ⟨rfl⟩ rfl
  have hthings : "things" ∈ T.names := by
    rw [tables_answer hT {}] at htables
    exact Option.some.inj htables ▸ List.mem_singleton.mpr rfl
  have hl : T.lists "things" = ⟨"id", ["colour"]⟩ := by
    rw [loadIndexes_of_record (hT.table "things" hthings).record] at hlist
    exact Option.some.inj hlist
  exact hl ▸ hT.ownKeys hs hthings

/-- The index on the colour of two things is dropped and created again. -/
theorem two_things_rebuilt :
    let dropped := ((tableOf {} "things").dropIndex "colour").on twoThings
    let created := ((tableOf {} "things").createIndex "colour").on dropped.2
    created.1 = .ok () ∧
      Rebuilt twoThings.content "things" "colour" ⟨"id", ["colour"]⟩ dropped.2.content
        created.2.content ∧
      created.2.content.read ((Space.index "things" "colour").key (.string "red")) = some "[1,2]" := by
  obtain ⟨hs, T, hT, hthings, hl⟩ := twoThings_consistent
  have htable : TableAt _ twoThings.content "things" ⟨"id", ["colour"]⟩ (T.rows "things") :=
    hl ▸ hT.table "things" hthings
  have hcolour : "colour" ∈ ["colour"] := List.mem_singleton.mpr rfl
  have hnames : ∀ g ∈ ["colour"], checkName "index" g = .ok () := by
    intro g hg
    rw [List.mem_singleton.mp hg]
    exact ok_of_toOption (by decide +kernel)
  obtain ⟨-, hok, hrebuilt⟩ := index_rebuilt (t := tableOf {} "things") rfl hs hT.sorted
    twoThings_ownKeys hnames (by decide) hcolour (htable.faithful hcolour) htable.rowKeysReadBack
  exact ⟨hok, hrebuilt, by decide +kernel⟩

/-- The text of a red thing whose key is a double, written in full. -/
def bigThingText : String :=
  "\x7b\"id\":3300000000000000000000000000000,\"colour\":\"red\"\x7d"

/-- A store with a red thing whose key is a double. All that is stored is read as it should be. -/
def bigThing : Content := Content.applyAll [] [(IndexList.mk "id" ["colour"]).record "things",
  .put ((Space.primary "things").named "3.3e+30") bigThingText,
  .put ((Space.index "things" "colour").named "\"red\"") "[3300000000000000000000000000000]"]

theorem read_bigThing (k : String) : bigThing.read k
    = if (Space.index "things" "colour").named "\"red\"" = k
        then some "[3300000000000000000000000000000]"
      else if (Space.primary "things").named "3.3e+30" = k then some bigThingText
      else if (Space.records "things").named indexListName = k
        then some (namesRecord ["id", "colour"])
      else none := by
  have hs : OrderedMap.Sorted ([] : Content) := List.Pairwise.nil
  unfold bigThing Content.applyAll
  rw [List.foldl_cons, List.foldl_cons, List.foldl_cons, List.foldl_nil, Content.read_apply,
    Content.read_apply, Content.read_apply hs]
  · rfl
  · exact Content.sorted_apply hs _
  · exact Content.sorted_apply (Content.sorted_apply hs _) _

theorem storedRows_bigThing (p : String) : storedRows bigThing "things" p
    = if p = "3.3e+30" then (readDocument bigThingText).toOption else none := by
  unfold storedRows
  rw [read_bigThing, if_neg (Space.row_ne_entry _ _ _ _).symm]
  by_cases hp : p = "3.3e+30"
  · rw [if_pos (congrArg _ hp.symm), if_pos hp, Option.bind_some]
  · rw [if_neg (fun heq => hp (Space.named_injective heq).symm),
      if_neg (Space.row_ne_record _ _ _).symm, if_neg hp, Option.bind_none]

theorem readDocument_bigThing : ∃ doc key, readDocument bigThingText = .ok doc ∧
    doc.get? "id" = some key ∧ key.isNull = false ∧ key.fingerprint = "3.3e+30" ∧
      placeIn "colour" (some doc) = some "\"red\"" := by
  have hread : (readDocument bigThingText).toOption.isSome = true := by decide +kernel
  obtain ⟨doc, hdoc⟩ := Option.isSome_iff_exists.mp hread
  have hid : ((readDocument bigThingText).toOption.bind (fun doc => doc.get? "id")).map
      (fun key => (key.isNull, key.fingerprint)) = some (false, "3.3e+30") := by decide +kernel
  have hcolour : (readDocument bigThingText).toOption.map (fun doc => placeIn "colour" (some doc))
      = some (some "\"red\"") := by decide +kernel
  rw [hdoc] at hid hcolour
  obtain ⟨key, hkey, hparts⟩ := Option.map_eq_some_iff.mp hid
  obtain ⟨hnull, hfingerprint⟩ := Prod.mk.inj hparts
  exact ⟨doc, key, ok_of_toOption hdoc, hkey, hnull, hfingerprint, Option.some.inj hcolour⟩

/-- The thing stands under its own key. -/
theorem bigThing_ownKeys : OwnKeys {} { content := bigThing } "things" ⟨"id", ["colour"]⟩ := by
  refine ⟨ok_of_toOption (by decide +kernel), fun e he => ?_⟩
  have hs : OrderedMap.Sorted bigThing := Content.sorted_applyAll List.Pairwise.nil _
  obtain ⟨hread, p, hp⟩ := (Space.mem_entries hs).mp he
  rw [hp, read_bigThing, if_neg (Space.row_ne_entry _ _ _ _).symm] at hread
  split at hread
  · next heq =>
    obtain rfl := Space.named_injective heq
    obtain ⟨doc, key, hdoc, hkey, hnull, hfingerprint, -⟩ := readDocument_bigThing
    refine ⟨doc, key, Option.some.inj hread ▸ hdoc, hkey, hnull, ?_⟩
    rw [hp, Space.key, hfingerprint]
  · rw [if_neg (Space.row_ne_record _ _ _).symm] at hread
    cases hread

/-- Its key is listed under its colour, and under no other value. -/
theorem bigThing_faithful : Faithful bigThing "things" "colour" := by
  intro v
  obtain ⟨doc, -, hdoc, -, -, -, hcolour⟩ := readDocument_bigThing
  have hplace : ∀ p, placeIn "colour" (storedRows bigThing "things" p)
      = if p = "3.3e+30" then some "\"red\"" else none := by
    intro p
    rw [storedRows_bigThing, hdoc]
    split
    · exact hcolour
    · rfl
  have hread : bigThing.read ((Space.index "things" "colour").key v)
      = if "\"red\"" = v.fingerprint then some "[3300000000000000000000000000000]" else none := by
    rw [Space.key, read_bigThing, if_neg (Space.row_ne_entry _ _ _ _),
      if_neg (Space.entry_ne_record _ _ _ _).symm]
    exact if_congr ⟨Space.named_injective, congrArg _⟩ rfl rfl
  have hlist : (readValues "[3300000000000000000000000000000]").toOption.map
      (List.map Value.fingerprint) = some ["3.3e+30"] := by decide +kernel
  obtain ⟨keys, hkeys, hfingerprints⟩ := Option.map_eq_some_iff.mp hlist
  unfold lookup
  simp only [Snapshot.bind_apply, Snapshot.get_apply, hread, ok_bind]
  by_cases hv : "\"red\"" = v.fingerprint
  · rw [if_pos hv]
    refine ⟨keys, (Snapshot.ofOutcome_apply _ _).trans (ok_of_toOption hkeys), ?_, fun p => ?_⟩
    · rw [hfingerprints]
      exact List.nodup_singleton _
    · rw [hfingerprints, hplace, List.mem_singleton, hv]
      split <;> simp [*]
  · rw [if_neg hv]
    refine ⟨[], rfl, List.nodup_nil, fun p => ?_⟩
    rw [hplace]
    split <;> simp [hv]

/-- Written anew the key is a text that is read as a double beside it. -/
theorem bigThing_not_rebuilt :
    let s : Memory := { content := bigThing }
    let dropped := ((tableOf {} "things").dropIndex "colour").on s
    let created := ((tableOf {} "things").createIndex "colour").on dropped.2
    OwnKeys {} s "things" ⟨"id", ["colour"]⟩ ∧ Faithful bigThing "things" "colour" ∧
      dropped.1.toOption = some () ∧ created.1.toOption = some () ∧
      ¬Rebuilt bigThing "things" "colour" ⟨"id", ["colour"]⟩ dropped.2.content
        created.2.content := by
  intro s dropped created
  refine ⟨bigThing_ownKeys, bigThing_faithful, by decide +kernel, by decide +kernel, fun h => ?_⟩
  obtain ⟨before, after, hbefore, hafter, -, hperm⟩ := h.lookups (.string "red")
  have hthen : (lookup Snapshot.store "things" "colour" (.string "red") bigThing).toOption.map
      (List.map Value.fingerprint) = some ["3.3e+30"] := by decide +kernel
  have hnow : (lookup Snapshot.store "things" "colour" (.string "red")
      created.2.content).toOption.map (List.map Value.fingerprint)
        = some ["3.2999999999999997e+30"] := by decide +kernel
  rw [hbefore] at hthen
  rw [hafter] at hnow
  rw [Option.some.inj hthen, Option.some.inj hnow] at hperm
  exact absurd (List.singleton_perm_singleton.mp hperm) (by decide)

end KeyValue

end QueryAlgebra
