import QueryAlgebra.Proofs.KeyValue.Changes

/-!
# Rows under their keys

A store *identifies* the rows of its tables when every document stands under its primary key and can
be read. Nothing is said of the indexes: they may be out of step, and reading them may fail. What an
operation reads of such a store, apart from the indexes, is known, and every change keeps the rows
identified, whatever the keys are.
-/

namespace QueryAlgebra

namespace KeyValue

/-! ## 1. The invariant -/

/-- The store holds the rows of a table under their keys. -/
structure RowsAt (P : String → Prop) (m : Content) (t : String) (l : IndexList) (rows : Rows) :
    Prop where
  record : m.read ((Space.records t).named indexListName)
    = some (namesRecord (l.primaryKey :: l.secondary))
  fields : ∀ f ∈ l.secondary, Plain f
  stored : ∀ p, m.read ((Space.primary t).named p)
    = (rows p).map (fun doc => (Value.object doc).json)
  row : ∀ p doc, rows p = some doc → Row P l.primaryKey p doc

/-- **The store holds the rows of these tables,** and no other documents. -/
structure Identified (P : String → String → Prop) (m : Content) (T : Tables) : Prop where
  sorted : OrderedMap.Sorted m
  plain : ∀ t ∈ T.names, Plain t
  listed : m.read (Space.database.named tableListName)
    = if T.names = [] then none else some (namesRecord T.names)
  table : ∀ t ∈ T.names, RowsAt (P t) m t (T.lists t) (T.rows t)
  blank : ∀ t, Plain t → t ∉ T.names → ∀ p, m.read ((Space.primary t).named p) = none
  unlisted : ∀ t, t ∉ T.names → m.read ((Space.records t).named indexListName) = none

variable {P : String → String → Prop} {m m' : Content} {T : Tables}

/-- The rows of a consistent store are identified. -/
theorem Consistent.identified (h : Consistent P m T) : Identified P m T where
  sorted := h.sorted
  plain := h.plain
  listed := h.listed
  table := fun t ht =>
    have htable := h.table t ht
    ⟨htable.record, htable.plain, htable.stored, htable.row⟩
  blank := fun t hplain hnot => h.blank t hplain hnot (.primary t) hplain rfl
  unlisted := h.unlisted

theorem identified_empty (P : String → String → Prop) :
    Identified P [] ⟨[], default, fun _ _ => none⟩ :=
  ⟨List.Pairwise.nil, fun _ ht => absurd ht List.not_mem_nil, rfl,
    fun _ ht => absurd ht List.not_mem_nil, fun _ _ _ _ => rfl, fun _ _ => rfl⟩

/-! ## 2. What is read -/

section Answers

variable (h : Identified P m T)

include h

/-- Only a table that has been created has an index list. -/
theorem indexes_answer {t : String} {l : IndexList}
    (hl : loadIndexes Snapshot.store t m = .ok l) : t ∈ T.names ∧ T.lists t = l := by
  by_cases ht : t ∈ T.names
  · rw [loadIndexes_of_record (h.table t ht).record] at hl
    exact ⟨ht, Except.ok.inj hl⟩
  · rw [loadIndexes_of_none (h.unlisted t ht)] at hl
    cases hl

theorem tables_answer (config : Config) :
    Database.tables ⟨Snapshot.store, config⟩ m = .ok T.names := by
  unfold Database.tables
  rw [Snapshot.bind_apply, Snapshot.get_apply, Database.tablesKey, h.listed]
  split
  · next hnil =>
    rw [hnil]
    rfl
  · exact (Snapshot.ofOutcome_apply m _).trans (readNames_record T.names)

/-- **The document under a key is the row of its fingerprint.** -/
theorem document_answer {t : String} (ht : t ∈ T.names) (key : Value) :
    documentAt m t key = .ok (T.rows t key.fingerprint) :=
  documentAt_of_read (fun doc hdoc => ((h.table t ht).row _ doc hdoc).storable)
    ((h.table t ht).stored key.fingerprint)

end Answers

/-! ## 3. What is written -/

section Writes

variable {t : String} {ws : List Write}

/-- Rows are where their records and documents are read. -/
theorem RowsAt.congr {P : String → Prop} {l : IndexList} {rows : Rows} (ht : Plain t)
    (h : RowsAt P m t l rows) (hread : ∀ space : Space, space.WellNamed → space.tableName = t →
      ∀ p, m'.read (space.named p) = m.read (space.named p)) : RowsAt P m' t l rows where
  record := by rw [hread (.records t) ht rfl, h.record]
  fields := h.fields
  stored := fun p => by rw [hread (.primary t) ht rfl, h.stored]
  row := h.row

/-- Rows stay identified when those of one table come out of its writes so. -/
theorem Identified.write (h : Identified P m T) (ht : t ∈ T.names) (hws : ∀ w ∈ ws, Placed t w)
    {l : IndexList} {rows : Rows} (htable : RowsAt (P t) (m.applyAll ws) t l rows)
    (hunlisted : ∀ t', t' ∉ T.names →
      (m.applyAll ws).read ((Space.records t').named indexListName) = none) :
    Identified P (m.applyAll ws) (T.put t l rows) where
  sorted := Content.sorted_applyAll h.sorted ws
  plain := h.plain
  listed := by
    have hne : Space.database.tableName ≠ t := fun heq => (h.plain t ht).nonempty heq.symm
    rw [read_placed h.sorted hws Space.wellNamed_database hne, h.listed]
    rfl
  table := by
    intro t' ht'
    by_cases heq : t' = t
    · subst heq
      simp only [Tables.put, if_true]
      exact htable
    · simp only [Tables.put, if_neg heq]
      refine (h.table t' ht').congr (h.plain t' ht') (fun space hspace hname p => ?_)
      exact read_placed h.sorted hws hspace (fun he => heq (hname.symm.trans he)) p
  blank := by
    intro t' hplain hnot p
    have hne : (Space.primary t').tableName ≠ t := fun heq => hnot (heq ▸ ht)
    rw [read_placed h.sorted hws (Space.wellNamed_primary hplain) hne]
    exact h.blank t' hplain hnot p
  unlisted := hunlisted

/-- **A row that is written leaves the rows identified.** -/
theorem Identified.row (h : Identified P m T) (ht : t ∈ T.names) {key : Value}
    {old new : Option Fields}
    (hws : indexWrites Snapshot.store t key old new (T.lists t).secondary m = .ok ws)
    (hnew : ∀ doc, new = some doc → Row (P t) (T.lists t).primaryKey key.fingerprint doc) :
    Identified P (m.applyAll (ws ++ [documentWrite t key new]))
      (T.put t (T.lists t) ((T.rows t).write key.fingerprint new)) := by
  have htable := h.table t ht
  have hplain := h.plain t ht
  have hplaced := fun w hw => (within_row hws htable.fields w hw).placed hplain
  have hstored := stored_row h.sorted hws hplain htable.fields htable.stored
  refine h.write ht hplaced ⟨?_, htable.fields, hstored,
    fun p doc => Rows.row_write htable.row hnew⟩ (fun t' hnot => ?_)
  · rw [read_row_record h.sorted hws, htable.record]
  · rw [read_row_record h.sorted hws, h.unlisted t' hnot]

/-- **Another index list leaves the rows identified,** when the primary key is the same. -/
theorem Identified.relist (h : Identified P m T) (ht : t ∈ T.names) {f : String} (hf : Plain f)
    {l : IndexList} (hprimary : l.primaryKey = (T.lists t).primaryKey)
    (hfields : ∀ g ∈ l.secondary, Plain g)
    (hws : ∀ w ∈ ws, ∃ p, w.key = (Space.index t f).named p)
    (hlists : ∀ t', ∀ w ∈ ws, w.key = (Space.records t').named indexListName → w.value = none) :
    Identified P (m.applyAll (ws ++ [l.record t])) (T.put t l (T.rows t)) := by
  have htable := h.table t ht
  have hplain := h.plain t ht
  refine h.write ht (fun w hw => ?_) ⟨read_relist_record h.sorted hws, hfields,
    fun p => ?_, hprimary ▸ htable.row⟩ (fun t' hnot => ?_)
  · rcases List.mem_append.mp hw with hw | hw
    · obtain ⟨p, hp⟩ := hws w hw
      exact ⟨.index t f, ⟨hplain, hf⟩, rfl, p, hp⟩
    · exact ⟨.records t, hplain, rfl, _, key_record hw⟩
  · have hrow := @Space.row_ne_entry t f p
    rw [read_relist_other h.sorted hws hrow (Space.row_ne_record t p _), htable.stored]
  · have hother : ∀ w ∈ [l.record t], w.key ≠ (Space.records t').named indexListName :=
      fun w hw heq => hnot (indexList_injective ((key_record hw).symm.trans heq) ▸ ht)
    have hnone : Content.Settles m ws ((Space.records t').named indexListName) none :=
      ⟨hlists t', fun _ => h.unlisted t' hnot⟩
    exact (hnone.append_other hother).read h.sorted

/-- **A new table begins without rows.** -/
theorem Identified.create (h : Identified P m T) (ht : Plain t) (hnew : t ∉ T.names)
    {l : IndexList} (hfields : ∀ f ∈ l.secondary, Plain f) :
    Identified P (m.applyAll (creation T.names t l)) (T.create t l) := by
  have hprimary : ∀ {t' : String}, Plain t' → ∀ p,
      (m.applyAll (creation T.names t l)).read ((Space.primary t').named p)
        = m.read ((Space.primary t').named p) := fun ht' p =>
    read_creation_other h.sorted ht (Space.wellNamed_primary ht') (by simp) (by simp) p
  have hmem : ∀ {t'}, t' ∈ (T.create t l).names ↔ t' ∈ T.names ∨ t' = t := by
    simp [Tables.create]
  refine ⟨Content.sorted_applyAll h.sorted _, fun t' ht' => ?_, ?_, fun t' ht' => ?_, ?_, ?_⟩
  · exact (hmem.mp ht').elim (h.plain t') (fun heq => heq ▸ ht)
  · rw [read_creation_names h.sorted, if_neg (by simp [Tables.create])]
    rfl
  · by_cases heq : t' = t
    · subst heq
      simp only [Tables.create, if_true]
      exact ⟨read_creation_record h.sorted, hfields,
        fun p => (hprimary ht p).trans (h.blank t' ht hnew p), fun p doc hdoc => by cases hdoc⟩
    · simp only [Tables.create, if_neg heq]
      have hold : t' ∈ T.names := (hmem.mp ht').resolve_right heq
      have htable := h.table t' hold
      exact ⟨(read_creation_list h.sorted heq).trans htable.record, htable.fields,
        fun p => (hprimary (h.plain t' hold) p).trans (htable.stored p), htable.row⟩
  · intro t' hplain hnot p
    exact (hprimary hplain p).trans (h.blank t' hplain (fun hold => hnot (hmem.mpr (Or.inl hold))) p)
  · intro t' hnot
    obtain ⟨hold, heq⟩ := not_or.mp (fun hor => hnot (hmem.mpr hor))
    exact (read_creation_list h.sorted heq).trans (h.unlisted t' hold)

end Writes

/-- **Every change keeps the rows identified.** -/
theorem Identified.change (h : Identified P m T) (hchange : Change P m m') :
    ∃ T', Identified P m' T' := by
  cases hchange with
  | @row t l key old new ws hl hold hfits hws =>
    obtain ⟨hmem, rfl⟩ := indexes_answer h hl
    rw [document_answer h hmem] at hold
    obtain rfl := Except.ok.inj hold
    have hrow := (h.table t hmem).row key.fingerprint
    exact ⟨_, h.row hmem hws (fun _ hdoc => (hfits.row hrow hdoc).1)⟩
  | @addIndex t f l ws hl hf hprimary hnew hws =>
    obtain ⟨hmem, rfl⟩ := indexes_answer h hl
    have hkeys := key_rebuild hws
    refine ⟨_, h.relist hmem hf rfl (fun g hg => ?_) (fun w hw => ?_) (fun t' w hw heq => ?_)⟩
    · rcases List.mem_append.mp hg with hg | hg
      · exact (h.table t hmem).fields g hg
      · exact List.mem_singleton.mp hg ▸ hf
    · obtain ⟨v, hv⟩ := hkeys w hw
      exact ⟨_, hv⟩
    · obtain ⟨v, hv⟩ := hkeys w hw
      exact absurd (heq.symm.trans hv) (indexList_ne_key t' _ v)
  | @removeIndex t f l hl hf =>
    obtain ⟨hmem, rfl⟩ := indexes_answer h hl
    have hfields := (h.table t hmem).fields
    refine ⟨_, h.relist hmem (hfields f hf) rfl (fun g hg => ?_) (fun w hw => ?_)
      (fun t' w hw _ => ?_)⟩
    · exact hfields g (List.mem_of_mem_filter hg)
    · obtain ⟨-, p, hkey, -⟩ := Space.mem_deletions h.sorted hw
      exact ⟨p, hkey⟩
    · exact (Space.mem_deletions h.sorted hw).1
  | @create config t l names hnames ht hnew hdistinct hplain =>
    rw [tables_answer h] at hnames
    obtain rfl := Except.ok.inj hnames
    exact ⟨_, h.create ht hnew hplain⟩

end KeyValue

end QueryAlgebra
