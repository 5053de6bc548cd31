import QueryAlgebra.Proofs.KeyValue.Entries
import QueryAlgebra.Proofs.KeyValue.TableDocuments

/-!
# Consistent stores

What a store holds, as tables: their names, their index lists, and their rows. A store is
*consistent* with such tables when the rows stand under their primary keys, every entry of an index
lists the keys of the rows under it, and nothing else stands where a table may ever look.

* `Consistent.write`: writes to the places of one table leave the others as they are, so a step on a
  table has only to show that this table comes out right.
* `TableAt.commit`, `TableAt.addIndex`, `TableAt.removeIndex`: the three batches that a table writes.
* `Consistent.create`: a new table begins with nothing.
-/

namespace QueryAlgebra

namespace KeyValue

/-! ## 1. The invariant -/

/-- The store holds a table with an index list and rows. -/
structure TableAt (P : String → Prop) (m : Content) (t : String) (l : IndexList) (rows : Rows) :
    Prop where
  record : m.read ((Space.records t).named indexListName)
    = some (namesRecord (l.primaryKey :: l.secondary))
  distinct : l.primaryKey ∉ l.secondary
  plain : ∀ f ∈ l.secondary, Plain f
  stored : ∀ p, m.read ((Space.primary t).named p)
    = (rows p).map (fun doc => (Value.object doc).json)
  row : ∀ p doc, rows p = some doc → Row P l.primaryKey p doc
  entries : ∀ f ∈ l.secondary, ∀ p, ∃ keys,
    m.read ((Space.index t f).named p) = entryText keys ∧ Lists rows f p keys
  unindexed : ∀ f, Plain f → f ∉ l.secondary → ∀ p, m.read ((Space.index t f).named p) = none

/-- What a store holds, as tables. -/
structure Tables where
  /-- The names, in the order of creation. -/
  names : List String
  /-- The index list of every table. -/
  lists : String → IndexList
  /-- The rows of every table. -/
  rows : String → Rows

/-- The tables with another index list and other rows for one of them. -/
def Tables.put (T : Tables) (t : String) (l : IndexList) (rows : Rows) : Tables where
  names := T.names
  lists := fun t' => if t' = t then l else T.lists t'
  rows := fun t' => if t' = t then rows else T.rows t'

/-- The store holds exactly these tables. -/
structure Consistent (P : String → String → Prop) (m : Content) (T : Tables) : Prop where
  sorted : OrderedMap.Sorted m
  plain : ∀ t ∈ T.names, Plain t
  listed : m.read (Space.database.named tableListName)
    = if T.names = [] then none else some (namesRecord T.names)
  table : ∀ t ∈ T.names, TableAt (P t) m t (T.lists t) (T.rows t)
  blank : ∀ t, Plain t → t ∉ T.names → ∀ space : Space, space.WellNamed → space.tableName = t →
    ∀ p, m.read (space.named p) = none
  unlisted : ∀ t, t ∉ T.names → m.read ((Space.records t).named indexListName) = none

/-! ## 2. Writes of one table -/

/-- The write goes to a place of the table. -/
inductive Within (t : String) (w : Write) : Prop
  | document (v : Value) (h : w.key = (Space.primary t).key v)
  | entry (f : String) (hf : Plain f) (v : Value) (h : w.key = (Space.index t f).key v)
  | record (h : w.key = (Space.records t).named indexListName)

section Frame

variable {P : String → String → Prop} {m m' : Content} {t : String} {ws : List Write}

/-- The write goes to a place of a part of the table. -/
def Placed (t : String) (w : Write) : Prop :=
  ∃ space : Space, space.WellNamed ∧ space.tableName = t ∧ ∃ p, w.key = space.named p

theorem Within.placed (ht : Plain t) {w : Write} (h : Within t w) : Placed t w := by
  cases h with
  | document v h => exact ⟨.primary t, ht, rfl, _, h⟩
  | entry f hf v h => exact ⟨.index t f, ⟨ht, hf⟩, rfl, _, h⟩
  | record h => exact ⟨.records t, ht, rfl, _, h⟩

/-- **Writes of one table leave the places of others.** -/
theorem read_placed (hs : OrderedMap.Sorted m) (hws : ∀ w ∈ ws, Placed t w)
    {space : Space} (hspace : space.WellNamed) (hne : space.tableName ≠ t) (p : String) :
    (m.applyAll ws).read (space.named p) = m.read (space.named p) := by
  refine Content.read_applyAll_of_not_mem hs (fun w hw heq => ?_)
  obtain ⟨space', hspace', htable, p', hkey⟩ := hws w hw
  obtain ⟨rfl, -⟩ := Space.named_inj hspace' hspace (hkey.symm.trans heq)
  exact hne htable

theorem read_within (hs : OrderedMap.Sorted m) (ht : Plain t) (hws : ∀ w ∈ ws, Within t w)
    {space : Space} (hspace : space.WellNamed) (hne : space.tableName ≠ t) (p : String) :
    (m.applyAll ws).read (space.named p) = m.read (space.named p) :=
  read_placed hs (fun w hw => (hws w hw).placed ht) hspace hne p

/-- A table is where its places are read. -/
theorem TableAt.congr {P : String → Prop} {l : IndexList} {rows : Rows} (ht : Plain t)
    (h : TableAt P m t l rows) (hread : ∀ space : Space, space.WellNamed → space.tableName = t →
      ∀ p, m'.read (space.named p) = m.read (space.named p)) : TableAt P m' t l rows where
  record := by rw [hread (.records t) ht rfl, h.record]
  distinct := h.distinct
  plain := h.plain
  stored := fun p => by rw [hread (.primary t) ht rfl, h.stored]
  row := h.row
  entries := by
    intro f hf p
    obtain ⟨keys, hkeys, hlists⟩ := h.entries f hf p
    exact ⟨keys, by rw [hread (.index t f) ⟨ht, h.plain f hf⟩ rfl, hkeys], hlists⟩
  unindexed := fun f hf hnot p => by
    rw [hread (.index t f) ⟨ht, hf⟩ rfl, h.unindexed f hf hnot]

/-- **A store stays consistent when one table comes out of its writes right.** -/
theorem Consistent.write {T : Tables} (h : Consistent P m T) (ht : t ∈ T.names)
    (hws : ∀ w ∈ ws, Within t w) {l : IndexList} {rows : Rows}
    (htable : TableAt (P t) (m.applyAll ws) t l rows) :
    Consistent P (m.applyAll ws) (T.put t l rows) where
  sorted := Content.sorted_applyAll h.sorted ws
  plain := h.plain
  listed := by
    have hne : Space.database.tableName ≠ t := fun heq => (h.plain t ht).nonempty heq.symm
    rw [read_within h.sorted (h.plain t ht) hws Space.wellNamed_database hne, h.listed]
    rfl
  table := by
    intro t' ht'
    by_cases heq : t' = t
    · subst heq
      simp only [Tables.put, if_true]
      exact htable
    · simp only [Tables.put, if_neg heq]
      refine (h.table t' ht').congr (h.plain t' ht') (fun space hspace hname p => ?_)
      exact read_within h.sorted (h.plain t ht) hws hspace (fun he => heq (hname.symm.trans he)) p
  blank := by
    intro t' hplain hnot space hspace hname p
    have hne : space.tableName ≠ t := fun he => hnot (hname.symm.trans he ▸ ht)
    rw [read_within h.sorted (h.plain t ht) hws hspace hne]
    exact h.blank t' hplain hnot space hspace hname p
  unlisted := by
    intro t' hnot
    rw [← h.unlisted t' hnot]
    refine Content.read_applyAll_of_not_mem h.sorted (fun w hw heq => ?_)
    cases hws w hw with
    | document v hkey => exact indexList_ne_key t' _ v (heq.symm.trans hkey)
    | entry f hf v hkey => exact indexList_ne_key t' _ v (heq.symm.trans hkey)
    | record hkey => exact hnot (indexList_injective (heq.symm.trans hkey) ▸ ht)

end Frame

/-! ## 3. A row changes -/

section Commit

variable {P : String → Prop} {m : Content} {t : String} {l : IndexList} {rows : Rows}

theorem key_documentWrite (key : Value) (new : Option Fields) :
    (documentWrite t key new).key = (Space.primary t).named key.fingerprint := by
  cases new <;> rfl

theorem value_documentWrite (key : Value) (new : Option Fields) :
    (documentWrite t key new).value = new.map (fun doc => (Value.object doc).json) := by
  cases new <;> rfl

section Row

variable {key : Value} {old new : Option Fields} (hs : OrderedMap.Sorted m) {fields : List String}
  {ws : List Write} (hws : indexWrites Snapshot.store t key old new fields m = .ok ws)

include hs hws

/-- Writing a row leaves the record of every index list as it is. -/
theorem read_row_record (t' : String) : (m.applyAll (ws ++ [documentWrite t key new])).read
    ((Space.records t').named indexListName) = m.read ((Space.records t').named indexListName) := by
  refine Content.read_applyAll_of_not_mem hs (fun w hw heq => ?_)
  rcases List.mem_append.mp hw with hw | hw
  · obtain ⟨f, -, v, hv, -⟩ := key_indexWrites hws w hw
    exact indexList_ne_key t' _ v (heq.symm.trans hv)
  · rw [List.mem_singleton.mp hw, key_documentWrite] at heq
    exact indexList_ne_key t' _ key heq.symm

variable (ht : Plain t) (hfields : ∀ f ∈ fields, Plain f)

include ht hfields

/-- **Writing a row leaves every other row as it is.** -/
theorem read_row {t' : String} (ht' : Plain t') (p : String) :
    (m.applyAll (ws ++ [documentWrite t key new])).read ((Space.primary t').named p)
      = if t' = t ∧ p = key.fingerprint then new.map (fun doc => (Value.object doc).json)
        else m.read ((Space.primary t').named p) := by
  have hindex : ∀ w ∈ ws, w.key ≠ (Space.primary t').named p := by
    intro w hw
    obtain ⟨f, hf, v, hv, -⟩ := key_indexWrites hws w hw
    rw [hv]
    exact Space.named_ne (Space.wellNamed_index ht (hfields f hf)) (Space.wellNamed_primary ht')
      (by simp) _ _
  refine (Content.Sets.other_append hindex ⟨fun w hw heq => ?_, fun hnone => ?_⟩).read hs
  · rw [List.mem_singleton.mp hw, key_documentWrite] at heq
    obtain ⟨hspace, rfl⟩ := Space.named_inj (Space.wellNamed_primary ht)
      (Space.wellNamed_primary ht') heq
    obtain rfl := Space.primary.inj hspace
    rw [if_pos ⟨rfl, rfl⟩, List.mem_singleton.mp hw, value_documentWrite]
  · rw [if_neg]
    rintro ⟨rfl, rfl⟩
    exact hnone _ (List.mem_singleton.mpr rfl) (key_documentWrite key new)

/-- The documents of a table after one has been written are its rows with that one. -/
theorem stored_row (hstored : ∀ p, m.read ((Space.primary t).named p)
    = (rows p).map (fun doc => (Value.object doc).json)) (p : String) :
    (m.applyAll (ws ++ [documentWrite t key new])).read ((Space.primary t).named p)
      = (rows.write key.fingerprint new p).map (fun doc => (Value.object doc).json) := by
  rw [read_row hs hws ht hfields ht, hstored]
  unfold Rows.write
  by_cases hp : p = key.fingerprint
  · rw [if_pos ⟨rfl, hp⟩, if_pos hp]
  · rw [if_neg (fun hand => hp hand.2), if_neg hp]

/-- An index on another field is left as it is. -/
theorem read_row_index {f : String} (hf : Plain f) (hnot : f ∉ fields) (p : String) :
    (m.applyAll (ws ++ [documentWrite t key new])).read ((Space.index t f).named p)
      = m.read ((Space.index t f).named p) := by
  refine Content.read_applyAll_of_not_mem hs (fun w hw => ?_)
  rcases List.mem_append.mp hw with hw | hw
  · obtain ⟨g, hg, v, hv, -⟩ := key_indexWrites hws w hw
    rw [hv]
    exact Space.named_ne (Space.wellNamed_index ht (hfields g hg)) (Space.wellNamed_index ht hf)
      (fun he => hnot ((Space.index.inj he).2 ▸ hg)) _ _
  · rw [List.mem_singleton.mp hw, key_documentWrite]
    exact Space.named_ne (Space.wellNamed_primary ht) (Space.wellNamed_index ht hf) (by simp) _ _

omit hs ht in
/-- The writes of a row go to places of its table. -/
theorem within_row : ∀ w ∈ ws ++ [documentWrite t key new], Within t w := by
  intro w hw
  rcases List.mem_append.mp hw with hw | hw
  · obtain ⟨f, hf, v, hv, -⟩ := key_indexWrites hws w hw
    exact .entry f (hfields f hf) v hv
  · rw [List.mem_singleton.mp hw]
    exact .document key (key_documentWrite key new)

end Row

/-- **A commit keeps every index in step.** -/
theorem TableAt.commit (hs : OrderedMap.Sorted m) (ht : Plain t) (hP : Apart P)
    (h : TableAt P m t l rows) {key : Value} (hkey : P key.fingerprint) {new : Option Fields}
    (hnew : ∀ doc, new = some doc → Row P l.primaryKey key.fingerprint doc ∧ key.Storable) :
    ∃ ws, indexWrites Snapshot.store t key (rows key.fingerprint) new l.secondary m = .ok ws
      ∧ (∀ w ∈ ws ++ [documentWrite t key new], Within t w)
      ∧ TableAt P (m.applyAll (ws ++ [documentWrite t key new])) t l
          (rows.write key.fingerprint new) := by
  choose! keys hread hlists using h.entries
  have hlisted : ∀ f ∈ l.secondary, Listed m t f (keys f) := fun f hf v _ =>
    lookup_of_entry (hread f hf v.fingerprint) (hlists f hf v.fingerprint).storable
  obtain ⟨ws, hanswer, hsets⟩ := indexWrites_answer key (rows key.fingerprint) new hlisted
  refine ⟨ws, hanswer, within_row hanswer h.plain, ⟨?_, h.distinct, h.plain,
    stored_row hs hanswer ht h.plain h.stored,
    fun p doc => Rows.row_write h.row (fun doc hdoc => (hnew doc hdoc).1),
    fun f hf p => ?_, fun f hf hnot p => ?_⟩⟩
  · rw [read_row_record hs hanswer, h.record]
  · refine ⟨_, ?_, (hlists f hf p).after hP (fun p doc hdoc => (h.row p doc hdoc).known) hkey ?_⟩
    · have hsettles := (hsets f hf p (aloneAt_plain ht h.plain (h.plain f hf) p)).mono fun hsame =>
        (hread f hf p).trans (congrArg entryText hsame.symm)
      refine (hsettles.append_other (fun w hw => ?_)).read hs
      rw [List.mem_singleton.mp hw, key_documentWrite]
      exact Space.named_ne (Space.wellNamed_primary ht) (Space.wellNamed_index ht (h.plain f hf))
        (by simp) _ _
    · intro hsome
      obtain ⟨doc, hdoc⟩ := Option.isSome_iff_exists.mp hsome
      exact (hnew doc hdoc).2
  · rw [read_row_index hs hanswer ht h.plain hf hnot, h.unindexed f hf hnot]

end Commit

/-! ## 4. An index comes or goes -/

section Relist

variable {P : String → Prop} {m : Content} {t f : String} {l l' : IndexList} {rows : Rows}

theorem key_record {w : Write} (hw : w ∈ [l'.record t]) :
    w.key = (Space.records t).named indexListName := by
  rw [List.mem_singleton.mp hw]
  rfl

section Frame

variable (hs : OrderedMap.Sorted m) {ws : List Write}
  (hws : ∀ w ∈ ws, ∃ p, w.key = (Space.index t f).named p)

include hs hws

theorem read_relist_record : (m.applyAll (ws ++ [l'.record t])).read
    ((Space.records t).named indexListName)
      = some (namesRecord (l'.primaryKey :: l'.secondary)) := by
  refine Content.read_applyAll_of_mem hs
    ⟨_, List.mem_append_right _ (List.mem_singleton.mpr rfl), rfl⟩ (fun w hw hkey => ?_)
  rcases List.mem_append.mp hw with hw | hw
  · obtain ⟨q, hq⟩ := hws w hw
    exact absurd (hq.symm.trans hkey) (Space.entry_ne_record t f _ _)
  · rw [List.mem_singleton.mp hw]
    rfl

/-- Away from the index and the records nothing is written. -/
theorem read_relist_other {k : String} (hentry : ∀ p, k ≠ (Space.index t f).named p)
    (hrecord : k ≠ (Space.records t).named indexListName) :
    (m.applyAll (ws ++ [l'.record t])).read k = m.read k := by
  refine Content.read_applyAll_of_not_mem hs (fun w hw => ?_)
  rcases List.mem_append.mp hw with hw | hw
  · obtain ⟨q, hq⟩ := hws w hw
    rw [hq]
    exact (hentry q).symm
  · rw [key_record hw]
    exact hrecord.symm

end Frame

/-- A table under another index list, which differs in one field. -/
theorem TableAt.relist (hs : OrderedMap.Sorted m) (hf : Plain f)
    (h : TableAt P m t l rows) (hprimary : l'.primaryKey = l.primaryKey)
    (hdistinct : l'.primaryKey ∉ l'.secondary) (hplain : ∀ g ∈ l'.secondary, Plain g)
    (hsame : ∀ g, g ≠ f → (g ∈ l'.secondary ↔ g ∈ l.secondary)) {ws : List Write}
    (hws : ∀ w ∈ ws, ∃ p, w.key = (Space.index t f).named p)
    (hin : f ∈ l'.secondary → ∀ p, ∃ keys,
      Content.Settles m ws ((Space.index t f).named p) (entryText keys) ∧ Lists rows f p keys)
    (hout : f ∉ l'.secondary → ∀ p, Content.Settles m ws ((Space.index t f).named p) none) :
    TableAt P (m.applyAll (ws ++ [l'.record t])) t l' rows := by
  have hentry : ∀ p, ∀ w ∈ [l'.record t], w.key ≠ (Space.index t f).named p := by
    intro p w hw
    rw [key_record hw]
    exact (Space.entry_ne_record t f p _).symm
  have hindex : ∀ {g p}, Plain g → g ≠ f →
      (m.applyAll (ws ++ [l'.record t])).read ((Space.index t g).named p)
        = m.read ((Space.index t g).named p) := fun hg hne =>
    read_relist_other hs hws (Space.entry_ne_entry hg hf hne t _) (Space.entry_ne_record t _ _ _)
  have hrow : ∀ p, (m.applyAll (ws ++ [l'.record t])).read ((Space.primary t).named p)
      = m.read ((Space.primary t).named p) := fun p =>
    read_relist_other hs hws (Space.row_ne_entry t f p) (Space.row_ne_record t p _)
  refine ⟨read_relist_record hs hws, hdistinct, hplain, fun p => ?_, hprimary ▸ h.row, ?_, ?_⟩
  · rw [hrow, h.stored]
  · intro g hg p
    by_cases heq : g = f
    · subst heq
      obtain ⟨keys, hsettles, hlists⟩ := hin hg p
      exact ⟨keys, (hsettles.append_other (hentry p)).read hs, hlists⟩
    · obtain ⟨keys, hkeys, hlists⟩ := h.entries g ((hsame g heq).mp hg) p
      exact ⟨keys, by rw [hindex (hplain g hg) heq, hkeys], hlists⟩
  · intro g hg hnot p
    by_cases heq : g = f
    · subst heq
      exact ((hout hnot p).append_other (hentry p)).read hs
    · rw [hindex hg heq]
      exact h.unindexed g hg (fun hmem => hnot ((hsame g heq).mpr hmem)) p

/-- **A rebuilt index is in step from the start.** -/
theorem TableAt.addIndex (hs : OrderedMap.Sorted m) (hf : Plain f)
    (h : TableAt P m t l rows) (hprimary : f ≠ l.primaryKey) (hnew : f ∉ l.secondary) :
    ∃ ws, rebuild Snapshot.store t f l.primaryKey m = .ok ws
      ∧ (∀ w ∈ ws ++ [(l.add f).record t], Within t w)
      ∧ TableAt P (m.applyAll (ws ++ [(l.add f).record t])) t (l.add f) rows := by
  obtain ⟨docs, hdocs⟩ := exists_documents hs h.stored h.row
  have hkeyed : ∀ doc ∈ docs, (doc.get? l.primaryKey).isSome := by
    intro doc hdoc
    obtain ⟨p, hp⟩ := (hdocs.mem doc).mp hdoc
    obtain ⟨key, hkey, -⟩ := (h.row p doc hp).key
    rw [hkey]
    rfl
  obtain ⟨ws, hanswer, hsettles⟩ :=
    rebuild_answer (hdocs.read h.row) hkeyed (h.unindexed f hf hnew)
  have hkeys := key_rebuild hanswer
  have hmem : ∀ g, g ∈ (l.add f).secondary ↔ g ∈ l.secondary ∨ g = f := by
    intro g
    simp [IndexList.add]
  have hsame : (l.add f).primaryKey = l.primaryKey := rfl
  refine ⟨ws, hanswer, fun w hw => ?_, h.relist hs hf hsame ?_ ?_ ?_ ?_ ?_ ?_⟩
  · rcases List.mem_append.mp hw with hw | hw
    · obtain ⟨v, hv⟩ := hkeys w hw
      exact .entry f hf v hv
    · rw [List.mem_singleton.mp hw]
      exact .record rfl
  · rw [hmem]
    exact fun hin => hin.elim h.distinct (fun heq => hprimary heq.symm)
  · intro g hg
    exact ((hmem g).mp hg).elim (h.plain g) (fun heq => heq ▸ hf)
  · intro g hne
    rw [hmem]
    exact or_iff_left hne
  · intro w hw
    obtain ⟨v, hv⟩ := hkeys w hw
    exact ⟨_, hv⟩
  · exact fun _ p => ⟨_, hsettles p, hdocs.lists h.row f p⟩
  · exact fun hnot => absurd ((hmem f).mpr (Or.inr rfl)) hnot

/-- Every entry of an index stands at the place of a value. -/
theorem TableAt.place_of_entry (h : TableAt P m t l rows) (hf : f ∈ l.secondary) {p text : String}
    (hread : m.read ((Space.index t f).named p) = some text) :
    ∃ q doc v, rows q = some doc ∧ indexed (some doc) f = some v ∧ v.fingerprint = p := by
  obtain ⟨keys, hkeys, hlists⟩ := h.entries f hf p
  rw [hread] at hkeys
  cases keys with
  | nil => cases hkeys
  | cons k keys =>
    have howner := (hlists.owners k.fingerprint).mp (List.mem_cons_self)
    cases hdoc : rows k.fingerprint with
    | none =>
      rw [hdoc] at howner
      cases howner
    | some doc =>
      rw [hdoc] at howner
      obtain ⟨v, hv, hp⟩ := Option.map_eq_some_iff.mp howner
      exact ⟨_, doc, v, hdoc, hv, hp⟩

/-- **A dropped index leaves nothing behind.** -/
theorem TableAt.removeIndex (hs : OrderedMap.Sorted m) (h : TableAt P m t l rows)
    (hf : f ∈ l.secondary) {ws : List Write}
    (hws : ws = (m.startingWith (Space.index t f).stem).map (fun e => Write.del e.1)) :
    (∀ w ∈ ws ++ [(l.remove f).record t], Within t w)
      ∧ TableAt P (m.applyAll (ws ++ [(l.remove f).record t])) t (l.remove f) rows := by
  have hplain := h.plain f hf
  have hne : ∀ {g}, g ∈ l.secondary → g ≠ l.primaryKey := fun hg heq => h.distinct (heq ▸ hg)
  have hmem : ∀ g, g ∈ (l.remove f).secondary ↔ g ∈ l.secondary ∧ g ≠ f := by
    intro g
    simp only [IndexList.remove, List.mem_filter, decide_eq_true_eq]
    exact and_congr_right (fun hg => or_iff_left (hne hg))
  have hdeleted : ∀ w ∈ ws, w.value = none ∧ ∃ p, w.key = (Space.index t f).named p
      ∧ (m.read ((Space.index t f).named p)).isSome :=
    fun w hw => Space.mem_deletions hs (hws ▸ hw)
  have hsame : (l.remove f).primaryKey = l.primaryKey := rfl
  refine ⟨fun w hw => ?_, h.relist hs hplain hsame ?_ ?_ ?_ ?_ ?_ ?_⟩
  · rcases List.mem_append.mp hw with hw | hw
    · obtain ⟨-, p, hkey, hsome⟩ := hdeleted w hw
      obtain ⟨text, hread⟩ := Option.isSome_iff_exists.mp hsome
      obtain ⟨q, doc, v, -, -, rfl⟩ := h.place_of_entry hf hread
      exact .entry f hplain v hkey
    · rw [List.mem_singleton.mp hw]
      exact .record rfl
  · rw [hmem]
    exact fun hin => h.distinct hin.1
  · exact fun g hg => h.plain g ((hmem g).mp hg).1
  · intro g hg
    rw [hmem]
    exact and_iff_left hg
  · intro w hw
    obtain ⟨-, p, hkey, -⟩ := hdeleted w hw
    exact ⟨p, hkey⟩
  · exact fun hin => absurd rfl ((hmem f).mp hin).2
  · intro _ p
    refine ⟨fun w hw _ => (hdeleted w hw).1, fun hnone => ?_⟩
    cases hread : m.read ((Space.index t f).named p) with
    | none => rfl
    | some text =>
      have hscanned : ((Space.index t f).named p, text) ∈ m.startingWith (Space.index t f).stem :=
        (Space.mem_entries hs).mpr ⟨hread, p, rfl⟩
      exact absurd rfl (hnone (.del _) (hws ▸ List.mem_map.mpr ⟨_, hscanned, rfl⟩))

end Relist

/-! ## 5. A new table -/

/-- The tables with one more, without rows. -/
def Tables.create (T : Tables) (t : String) (l : IndexList) : Tables where
  names := T.names ++ [t]
  lists := fun t' => if t' = t then l else T.lists t'
  rows := fun t' => if t' = t then fun _ => none else T.rows t'

theorem lists_nil (f p : String) : Lists (fun _ => none) f p [] :=
  ⟨fun k hk => absurd hk List.not_mem_nil, List.nodup_nil,
    fun q => ⟨fun hq => absurd hq List.not_mem_nil, fun hq => by cases hq⟩⟩

/-- The writes that create a table. -/
def creation (names : List String) (t : String) (l : IndexList) : List Write :=
  [l.record t, Database.tablesRecord (names ++ [t])]

section Create

variable {m : Content} (hs : OrderedMap.Sorted m) {t : String} {names : List String}
  {l : IndexList}

theorem key_creation {w : Write} (hw : w ∈ creation names t l) :
    w.key = (Space.records t).named indexListName
      ∨ w.key = Space.database.named tableListName := by
  rcases List.mem_cons.mp hw with rfl | hw
  · exact Or.inl rfl
  · rw [List.mem_singleton.mp hw]
    exact Or.inr rfl

include hs

theorem read_creation_record : (m.applyAll (creation names t l)).read
    ((Space.records t).named indexListName)
      = some (namesRecord (l.primaryKey :: l.secondary)) := by
  refine Content.read_applyAll_of_mem hs ⟨_, List.mem_cons_self, rfl⟩ (fun w hw hkey => ?_)
  rcases List.mem_cons.mp hw with rfl | hw
  · rfl
  · rw [List.mem_singleton.mp hw] at hkey
    exact absurd hkey.symm (indexList_ne_tableList t)

theorem read_creation_names : (m.applyAll (creation names t l)).read
    (Space.database.named tableListName) = some (namesRecord (names ++ [t])) := by
  refine Content.read_applyAll_of_mem hs
    ⟨_, List.mem_cons_of_mem _ (List.mem_singleton.mpr rfl), rfl⟩ (fun w hw hkey => ?_)
  rcases List.mem_cons.mp hw with rfl | hw
  · exact absurd hkey (indexList_ne_tableList t)
  · rw [List.mem_singleton.mp hw]
    rfl

theorem read_creation_other (ht : Plain t) {space : Space} (hspace : space.WellNamed)
    (hrecords : space ≠ .records t) (hdatabase : space ≠ .database) (p : String) :
    (m.applyAll (creation names t l)).read (space.named p) = m.read (space.named p) := by
  refine Content.read_applyAll_of_not_mem hs (fun w hw => ?_)
  rcases key_creation hw with hkey | hkey <;> rw [hkey]
  · exact Space.named_ne (Space.wellNamed_records ht) hspace hrecords.symm _ _
  · exact Space.named_ne Space.wellNamed_database hspace hdatabase.symm _ _

/-- The index lists of other tables stay, whatever the names of the tables are. -/
theorem read_creation_list {t' : String} (hne : t' ≠ t) :
    (m.applyAll (creation names t l)).read ((Space.records t').named indexListName)
      = m.read ((Space.records t').named indexListName) := by
  refine Content.read_applyAll_of_not_mem hs (fun w hw heq => ?_)
  rcases key_creation hw with hkey | hkey <;> rw [hkey] at heq
  · exact hne (indexList_injective heq).symm
  · exact indexList_ne_tableList t' heq.symm

end Create

/-- **A new table begins with nothing.** -/
theorem Consistent.create {P : String → String → Prop} {m : Content} {T : Tables}
    (h : Consistent P m T) {t : String} (ht : Plain t) (hnew : t ∉ T.names) {l : IndexList}
    (hdistinct : l.primaryKey ∉ l.secondary) (hplain : ∀ f ∈ l.secondary, Plain f) :
    Consistent P (m.applyAll (creation T.names t l)) (T.create t l) := by
  have hname : ∀ {space : Space} {t' : String}, Plain t' → t' ≠ t → space.tableName = t' →
      space ≠ .records t ∧ space ≠ .database := by
    rintro space t' hplain' hne rfl
    exact ⟨fun he => hne (he ▸ rfl), fun he => hplain'.nonempty (he ▸ rfl)⟩
  have hblank : ∀ {space : Space} (p : String), space.WellNamed → space ≠ .records t →
      space.tableName = t → (m.applyAll (creation T.names t l)).read (space.named p) = none := by
    intro space p hspace hrecords htable
    have hdatabase : space ≠ .database := fun he => ht.nonempty (htable ▸ he ▸ rfl)
    rw [read_creation_other h.sorted ht hspace hrecords hdatabase]
    exact h.blank t ht hnew space hspace htable p
  have htable : TableAt (P t) (m.applyAll (creation T.names t l)) t l (fun _ => none) :=
    ⟨read_creation_record h.sorted, hdistinct, hplain,
      fun p => hblank p (Space.wellNamed_primary ht) (by simp) rfl,
      fun p doc hdoc => (by cases hdoc),
      fun f hf p => ⟨[], hblank p (Space.wellNamed_index ht (hplain f hf)) (by simp) rfl,
        lists_nil f p⟩,
      fun f hf _ p => hblank p (Space.wellNamed_index ht hf) (by simp) rfl⟩
  have hmem : ∀ {t'}, t' ∈ (T.create t l).names ↔ t' ∈ T.names ∨ t' = t := by
    simp [Tables.create]
  refine ⟨Content.sorted_applyAll h.sorted _, fun t' ht' => ?_, ?_, fun t' ht' => ?_, ?_, ?_⟩
  · exact (hmem.mp ht').elim (h.plain t') (fun heq => heq ▸ ht)
  · rw [read_creation_names h.sorted, if_neg (by simp [Tables.create])]
    rfl
  · by_cases heq : t' = t
    · subst heq
      simp only [Tables.create, if_true]
      exact htable
    · simp only [Tables.create, if_neg heq]
      have hold : t' ∈ T.names := (hmem.mp ht').resolve_right heq
      refine (h.table t' hold).congr (h.plain t' hold) (fun space hspace htable' p => ?_)
      obtain ⟨hrecords, hdatabase⟩ := hname (h.plain t' hold) heq htable'
      exact read_creation_other h.sorted ht hspace hrecords hdatabase p
  · intro t' hplain' hnot space hspace htable' p
    obtain ⟨hold, heq⟩ := not_or.mp (fun hor => hnot (hmem.mpr hor))
    obtain ⟨hrecords, hdatabase⟩ := hname hplain' heq htable'
    rw [read_creation_other h.sorted ht hspace hrecords hdatabase]
    exact h.blank t' hplain' hold space hspace htable' p
  · intro t' hnot
    obtain ⟨hold, heq⟩ := not_or.mp (fun hor => hnot (hmem.mpr hor))
    exact (read_creation_list h.sorted heq).trans (h.unlisted t' hold)

end KeyValue

end QueryAlgebra
