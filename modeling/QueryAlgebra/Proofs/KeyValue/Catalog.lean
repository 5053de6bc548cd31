import QueryAlgebra.Proofs.KeyValue.Isolation

/-!
# The catalog

A handle is bound to a name, whether a table of that name has been created, dropped or never existed.
Whatever is done through such handles, and whichever calls of the store fail, the records of a
database agree with what it stores (`Catalogued`): the table list names every table once, a table is
listed exactly when it has an index list, and all else that is stored belongs to a listed table.

A row is written, and an index changed, only when the index list of the table could be read, which
shows that the table is listed; and no place of a value is the place of an index list, whatever the
names are. So the catalog is as before (`EditsAt`, at `Preserves (Catalogued names)`). Creating and
dropping change it by one name.

The main statement is `catalog_in_order`, over runs through any handles on any sessions.
-/

namespace QueryAlgebra

namespace KeyValue

/-! ## 1. The catalog of a content -/

/-- **The catalog of a content:** the table list names the tables, each once, a table is listed exactly
    when it has an index list, and every other key belongs to a listed table. -/
structure Catalogued (names : List String) (m : Content) : Prop where
  sorted : OrderedMap.Sorted m
  listed : Database.tables ⟨Snapshot.store, {}⟩ m = .ok names
  distinct : names.Nodup
  plain : ∀ t ∈ names, Plain t
  records (t : String) : (m.read (indexListKey t)).isSome = true ↔ t ∈ names
  owned (key : String) (h : (m.read key).isSome = true) (hkey : key ≠ Database.tablesKey) :
    ∃ t ∈ names, Owns t key

section Tables

variable {m : Content}

theorem tables_of_none (h : m.read Database.tablesKey = none) :
    Database.tables ⟨Snapshot.store, {}⟩ m = .ok [] := by
  unfold Database.tables
  rw [Snapshot.bind_apply, Snapshot.get_apply, h]
  rfl

theorem tables_of_text {text : String} (h : m.read Database.tablesKey = some text) :
    Database.tables ⟨Snapshot.store, {}⟩ m = readNames text := by
  unfold Database.tables
  rw [Snapshot.bind_apply, Snapshot.get_apply, h]
  exact Snapshot.ofOutcome_apply m _

theorem tables_of_record {names : List String}
    (h : m.read Database.tablesKey = some (namesRecord names)) :
    Database.tables ⟨Snapshot.store, {}⟩ m = .ok names :=
  (tables_of_text h).trans (readNames_record names)

theorem tables_congr {m' : Content}
    (h : m'.read Database.tablesKey = m.read Database.tablesKey) :
    Database.tables ⟨Snapshot.store, {}⟩ m' = Database.tables ⟨Snapshot.store, {}⟩ m := by
  cases hread : m.read Database.tablesKey with
  | none => rw [tables_of_none hread, tables_of_none (h.trans hread)]
  | some text => rw [tables_of_text hread, tables_of_text (h.trans hread)]

end Tables

theorem catalogued_empty : Catalogued [] [] where
  sorted := List.Pairwise.nil
  listed := rfl
  distinct := List.nodup_nil
  plain _ h := absurd h List.not_mem_nil
  records _ := ⟨fun h => (by cases h), fun h => absurd h List.not_mem_nil⟩
  owned _ h _ := by cases h

section Catalog

variable {names : List String} {m : Content} (h : Catalogued names m) {t : String}

include h

/-- Nothing is stored at the keys of a table that is not listed. -/
theorem Catalogued.blank (ht : Plain t) (hnew : t ∉ names) {key : String} (howns : Owns t key) :
    m.read key = none := by
  cases hread : m.read key with
  | none => rfl
  | some text =>
    have hlist : key ≠ Database.tablesKey := fun heq => not_owns_tablesKey ht (heq ▸ howns)
    obtain ⟨t', hmem, howns'⟩ := h.owned key (by rw [hread]; rfl) hlist
    exact absurd ((howns'.unique (h.plain t' hmem) ht howns) ▸ hmem) hnew

/-- The place of an index list belongs to no other listed table. -/
theorem Catalogued.record_unique {t' : String} (hmem : t ∈ names) (hmem' : t' ∈ names)
    (howns : Owns t (indexListKey t')) : t' = t :=
  (owns_named (.records t') indexListName).unique (h.plain t' hmem') (h.plain t hmem) howns

/-- **The writes of a listed table leave the catalog as it is.** -/
theorem Catalogued.edit (hmem : t ∈ names) {ws : List Write} (hws : ∀ w ∈ ws, w.Orderly t) :
    Catalogued names (m.applyAll ws) := by
  have hlist : (m.applyAll ws).read Database.tablesKey = m.read Database.tablesKey :=
    Content.read_applyAll_of_not_mem h.sorted fun w hw heq =>
      not_owns_tablesKey (h.plain t hmem) (heq ▸ (hws w hw).owned)
  refine ⟨Content.sorted_applyAll h.sorted ws, (tables_congr hlist).trans h.listed, h.distinct,
    h.plain, fun t' => ?_, fun key hsome hkey => ?_⟩
  · by_cases hother : ∀ w ∈ ws, w.key ≠ indexListKey t'
    · rw [Content.read_applyAll_of_not_mem h.sorted hother]
      exact h.records t'
    · push Not at hother
      obtain ⟨w, hw, hkey⟩ := hother
      by_cases heq : t' = t
      · -- the table's own index list is only ever put
        subst heq
        refine iff_of_true ?_ hmem
        obtain ⟨w', hw', hkey', hread⟩ := Content.exists_read_applyAll h.sorted ⟨w, hw, hkey⟩
        rw [hread]
        exact ((hws w' hw').records t' hkey').mpr rfl
      · -- another's is only ever removed, and a listed table has a place of its own
        have hnot : t' ∉ names := fun hmem' =>
          heq (h.record_unique hmem hmem' (hkey ▸ (hws w hw).owned))
        refine iff_of_false ?_ hnot
        have hgone : (m.applyAll ws).read (indexListKey t') = none :=
          Content.read_applyAll_of_mem h.sorted ⟨w, hw, hkey⟩ fun w' hw' hkey' => by
            have hdel := mt ((hws w' hw').records t' hkey').mp heq
            exact Option.not_isSome_iff_eq_none.mp hdel
        rw [hgone]
        exact Bool.false_ne_true
  · by_cases hother : ∀ w ∈ ws, w.key ≠ key
    · rw [Content.read_applyAll_of_not_mem h.sorted hother] at hsome
      exact h.owned key hsome hkey
    · push Not at hother
      obtain ⟨w, hw, rfl⟩ := hother
      exact ⟨t, hmem, (hws w hw).owned⟩

/-- **Creating a table lists it.** -/
theorem Catalogued.create (ht : Plain t) (hnew : t ∉ names) (l : IndexList) :
    Catalogued (names ++ [t]) (m.applyAll (creation names t l)) := by
  have hmem : ∀ {t'}, t' ∈ names ++ [t] ↔ t' ∈ names ∨ t' = t := by simp
  refine ⟨Content.sorted_applyAll h.sorted _, tables_of_record (read_creation_names h.sorted), ?_,
    fun t' ht' => ?_, fun t' => ?_, fun key hsome hkey => ?_⟩
  · have hnotmem : ∀ a ∈ names, ∀ b ∈ [t], a ≠ b := fun a ha b hb heq =>
      hnew (List.mem_singleton.mp hb ▸ heq ▸ ha)
    exact List.nodup_append.mpr ⟨h.distinct, List.nodup_singleton t, hnotmem⟩
  · exact (hmem.mp ht').elim (h.plain t') (fun heq => heq ▸ ht)
  · by_cases heq : t' = t
    · subst heq
      rw [read_creation_record h.sorted]
      exact iff_of_true rfl (hmem.mpr (Or.inr rfl))
    · rw [read_creation_list h.sorted heq, h.records t', hmem]
      exact ⟨Or.inl, fun hor => hor.resolve_right heq⟩
  · by_cases hother : ∀ w ∈ creation names t l, w.key ≠ key
    · rw [Content.read_applyAll_of_not_mem h.sorted hother] at hsome
      obtain ⟨t', ht', howns⟩ := h.owned key hsome hkey
      exact ⟨t', hmem.mpr (Or.inl ht'), howns⟩
    · push Not at hother
      obtain ⟨w, hw, rfl⟩ := hother
      have hrecord : w.key = indexListKey t := (key_creation hw).resolve_right hkey
      exact ⟨t, hmem.mpr (Or.inr rfl), hrecord ▸ owns_named (.records t) _⟩

/-- A created table has its index list and nothing else. -/
theorem Catalogued.read_created (ht : Plain t) (hnew : t ∉ names) (l : IndexList) {key : String}
    (howns : Owns t key) (hkey : key ≠ indexListKey t) :
    (m.applyAll (creation names t l)).read key = none := by
  rw [Content.read_applyAll_of_not_mem h.sorted, h.blank ht hnew howns]
  intro w hw heq
  rcases key_creation hw with hrecord | hlist
  · exact hkey (heq.symm.trans hrecord)
  · have hkey' : key = Database.tablesKey := heq.symm.trans hlist
    exact not_owns_tablesKey ht (hkey' ▸ howns)

end Catalog

/-- The writes that drop a table. -/
def dropWrites (m : Content) (names : List String) (t : String) : List Write :=
  (m.startingWith (Space.table t).stem).map (fun e => Write.del e.1)
    ++ [Database.tablesRecord (names.filter (· ≠ t))]

section Drop

variable {names : List String} {m : Content} (hs : OrderedMap.Sorted m) {t : String} (ht : Plain t)

include hs

theorem mem_dropWrites {w : Write} (hw : w ∈ dropWrites m names t) :
    (w.value = none ∧ Owns t w.key) ∨
      w = Database.tablesRecord (names.filter (· ≠ t)) := by
  rcases List.mem_append.mp hw with hw | hw
  · obtain ⟨e, he, rfl⟩ := List.mem_map.mp hw
    exact Or.inl ⟨rfl, ((Content.mem_startingWith hs).mp he).2⟩
  · exact Or.inr (List.mem_singleton.mp hw)

theorem read_dropWrites_other {key : String} (howns : ¬Owns t key) (hkey : key ≠ Database.tablesKey) :
    (m.applyAll (dropWrites m names t)).read key = m.read key := by
  refine Content.read_applyAll_of_not_mem hs fun w hw heq => ?_
  rcases mem_dropWrites hs hw with ⟨-, hw⟩ | rfl
  · exact howns (heq ▸ hw)
  · exact hkey heq.symm

include ht

theorem read_dropWrites_names : (m.applyAll (dropWrites m names t)).read Database.tablesKey
    = some (namesRecord (names.filter (· ≠ t))) := by
  refine Content.read_applyAll_of_mem hs
    ⟨_, List.mem_append_right _ (List.mem_singleton.mpr rfl), rfl⟩ fun w hw hkey => ?_
  rcases mem_dropWrites hs hw with ⟨-, howns⟩ | rfl
  · exact absurd (hkey ▸ howns) (not_owns_tablesKey ht)
  · rfl

theorem read_dropWrites_owned {key : String} (howns : Owns t key) :
    (m.applyAll (dropWrites m names t)).read key = none := by
  have hkey : key ≠ Database.tablesKey := fun heq => not_owns_tablesKey ht (heq ▸ howns)
  have hsettles : Content.Settles m (dropWrites m names t) key none := by
    refine ⟨fun w hw heq => ?_, fun hother => ?_⟩
    · rcases mem_dropWrites hs hw with ⟨hvalue, -⟩ | rfl
      · exact hvalue
      · exact absurd heq.symm hkey
    · cases hread : m.read key with
      | none => rfl
      | some text =>
        have hmem := (Content.mem_startingWith hs (e := (key, text))).mpr ⟨hread, howns⟩
        exact absurd rfl (hother (.del key)
          (List.mem_append_left _ (List.mem_map.mpr ⟨(key, text), hmem, rfl⟩)))
  exact hsettles.read hs

end Drop

/-- **Dropping a table takes it from the list,** with everything that is stored for it. -/
theorem Catalogued.drop {names : List String} {m : Content} (h : Catalogued names m) {t : String}
    (hmem : t ∈ names) : Catalogued (names.filter (· ≠ t)) (m.applyAll (dropWrites m names t)) := by
  have ht := h.plain t hmem
  have hkept : ∀ {t'}, t' ∈ names.filter (· ≠ t) ↔ t' ∈ names ∧ t' ≠ t := by simp
  refine ⟨Content.sorted_applyAll h.sorted _, tables_of_record (read_dropWrites_names h.sorted ht),
    h.distinct.filter _, fun t' ht' => h.plain t' (hkept.mp ht').1, fun t' => ?_,
    fun key hsome hkey => ?_⟩
  · rw [hkept]
    by_cases howns : Owns t (indexListKey t')
    · rw [read_dropWrites_owned h.sorted ht howns]
      exact iff_of_false Bool.false_ne_true fun hboth =>
        hboth.2 (h.record_unique hmem hboth.1 howns)
    · rw [read_dropWrites_other h.sorted howns (indexList_ne_tableList t'), h.records t']
      have hne : t' ≠ t := fun heq => howns (heq ▸ owns_named (.records t) _)
      exact ⟨fun ht' => ⟨ht', hne⟩, And.left⟩
  · by_cases howns : Owns t key
    · rw [read_dropWrites_owned h.sorted ht howns] at hsome
      cases hsome
    · rw [read_dropWrites_other h.sorted howns hkey] at hsome
      obtain ⟨t', ht', howns'⟩ := h.owned key hsome hkey
      exact ⟨t', hkept.mpr ⟨ht', fun heq => howns (heq ▸ howns')⟩, howns'⟩

/-! ## 2. Sessions in which calls may fail -/

/-- From a content a computation leads, whichever calls fail, to an answer and a content that stand in
    a relation. -/
def Always {α : Type} (Q : Except Error α → Content → Prop) (m : Content) (x : Session α) : Prop :=
  ∀ s, s.content = m → Q (x.on s).1 (x.on s).2.content

/-- **A computation keeps a property of the content,** whichever calls fail; and what it answers has a
    property. -/
def Preserves (P : Content → Prop) {α : Type} (Q : α → Prop) (x : Session α) : Prop :=
  ∀ s, P s.content → P (x.on s).2.content ∧ ∀ a, (x.on s).1 = .ok a → Q a

section Always

variable {α β : Type} {m : Content} {Q : Except Error α → Content → Prop}
  {R : Except Error β → Content → Prop}

theorem Always.bind {x : Session α} {f : α → Session β} (hx : Always Q m x)
    (herror : ∀ e m', Q (.error e) m' → R (.error e) m')
    (hf : ∀ a m', Q (.ok a) m' → Always R m' (f a)) : Always R m (x >>= f) := by
  intro s hs
  have hQ := hx s hs
  rw [Session.on_bind]
  rcases hon : x.on s with ⟨e | a, s'⟩ <;> rw [hon] at hQ
  · exact herror e _ hQ
  · exact hf a s'.content hQ s' rfl

theorem Always.ofOutcome {x : Except Error α} (h : Q x m) : Always Q m (ofOutcome x) := by
  intro s hs
  rw [Session.on_ofOutcome, hs]
  exact h

theorem Always.throw {e : Error} (h : Q (.error e) m) : Always Q m (throw e) := by
  intro s hs
  rw [Session.on_throw, hs]
  exact h

theorem Always.throw_bind {e : Error} {f : α → Session β} (h : R (.error e) m) :
    Always R m ((MonadExcept.throw e : Session α) >>= f) := by
  intro s hs
  rw [Session.on_bind, Session.on_throw, hs]
  exact h

/-- What a read of a key answers is stored there. -/
theorem always_get (key : String) (m : Content) :
    Always (fun r m' => m' = m ∧ ∀ text, r = .ok text → text = m.read key) m
      (Memory.store.get key) := by
  rintro s rfl
  refine ⟨(session_reliable.get key s).1.1, fun text htext => ?_⟩
  change (Stateful.on (Memory.charge .get >>= _) s).1 = .ok text at htext
  rw [Stateful.on_bind, on_charge_any] at htext
  cases hfault : s.fault .get (s.calls.count .get) with
  | some message =>
    rw [hfault] at htext
    cases htext
  | none =>
    rw [hfault] at htext
    exact (Except.ok.inj htext).symm

theorem always_scan (start : String) (m : Content) :
    Always (fun r m' => m' = m ∧ ∀ entries, r = .ok entries → entries = m.startingWith start) m
      (Memory.store.scan start) := by
  rintro s rfl
  exact ⟨(session_reliable.scan start s).1.1, fun entries h => scan_answer h⟩

theorem always_batch (writes : List Write) (m : Content) :
    Always (fun r m' => (m' = m ∧ ∃ e, r = .error e) ∨ m' = m.applyAll writes) m
      (Memory.store.batch writes) := by
  rintro s rfl
  rcases (session_reliable.batch writes s).2 with ⟨-, hcontent⟩ | ⟨⟨message, hmessage⟩, hcontent⟩
  · exact Or.inr hcontent
  · exact Or.inl ⟨hcontent, _, hmessage⟩

theorem always_tables (config : Config) (m : Content) :
    Always (fun r m' => m' = m ∧ ∀ names, r = .ok names →
      Database.tables ⟨Snapshot.store, {}⟩ m = .ok names) m
      (Database.tables ⟨Memory.store, config⟩) := by
  refine (always_get _ m).bind (fun e m' h => ⟨h.1, fun _ hok => by cases hok⟩) ?_
  rintro text m' ⟨rfl, htext⟩
  have hread : text = m'.read Database.tablesKey := htext text rfl
  cases text with
  | none =>
    exact Always.ofOutcome (x := .ok []) ⟨rfl, fun _ h => (tables_of_none hread.symm).trans h⟩
  | some text => exact Always.ofOutcome ⟨rfl, fun _ h => (tables_of_text hread.symm).trans h⟩

/-- **An index list that is read is stored.** -/
theorem always_loadIndexes (t : String) (m : Content) :
    Always (fun r m' => m' = m ∧ ∀ l, r = .ok l → (m.read (indexListKey t)).isSome = true) m
      (loadIndexes Memory.store t) := by
  refine (always_get _ m).bind (fun e m' h => ⟨h.1, fun _ hok => by cases hok⟩) ?_
  rintro text m' ⟨rfl, htext⟩
  cases text with
  | none => exact Always.throw ⟨rfl, fun _ h => by cases h⟩
  | some text => exact Always.ofOutcome ⟨rfl, fun l _ => htext _ rfl ▸ rfl⟩

end Always

section Preserves

variable {P : Content → Prop}

theorem closed_preserves (P : Content → Prop) : Closed (M := Session) (fun _ => Preserves P) where
  pure h s hs := ⟨hs, fun _ ha => Except.ok.inj ha ▸ h⟩
  throw e s hs := ⟨hs, fun _ ha => by cases ha⟩
  bind {_ _ _ _ x f} hx hf s hs := by
    obtain ⟨hP, hQ⟩ := hx s hs
    rw [Session.on_bind]
    rcases hon : x.on s with ⟨e | a, s'⟩ <;> rw [hon] at hP hQ
    · exact ⟨hP, fun _ ha => by cases ha⟩
    · exact hf a (hQ a rfl) s' hP

theorem preserves_of_content {α : Type} {Q : α → Prop} {x : Session α}
    (h : ∀ s, P s.content → (x.on s).2.content = s.content ∧ ∀ a, (x.on s).1 = .ok a → Q a) :
    Preserves P Q x := by
  intro s hs
  obtain ⟨hcontent, hQ⟩ := h s hs
  exact ⟨hcontent ▸ hs, hQ⟩

theorem preserves_rescue {α : Type} {Q : α → Prop} {x : Session α} {f : Error → Session α}
    (hx : Preserves P Q x) (hf : ∀ e, Preserves P Q (f e)) : Preserves P Q (tryCatch x f) := by
  intro s hs
  obtain ⟨hP, hQ⟩ := hx s hs
  rw [Session.on_tryCatch]
  rcases hon : x.on s with ⟨e | a, s'⟩ <;> rw [hon] at hP hQ
  · exact hf e s' hP
  · exact ⟨hP, hQ⟩

/-- Reading writes nothing, so it keeps every property of the content. -/
theorem readsAt_preserves (t : String) : ReadsAt (fun _ => Preserves P) Memory.store t where
  closed := closed_preserves P
  get key _ := preserves_of_content fun s _ => ⟨(session_reliable.get key s).1.1, fun _ _ => trivial⟩
  scan start _ := preserves_of_content fun s _ =>
    ⟨(session_reliable.scan start s).1.1, fun _ ha => scan_prefix ha⟩

/-- **The calls that change a listed table keep the catalog.** -/
theorem editsAt_catalogued (names : List String) (t : String) :
    EditsAt (fun _ => Preserves (Catalogued names)) Memory.store t (t ∈ names) where
  toReadsAt := readsAt_preserves t
  loaded := preserves_of_content fun s hs => by
    obtain ⟨hcontent, hlisted⟩ := always_loadIndexes t s.content s rfl
    exact ⟨hcontent, fun l hl => (hs.records t).mp (hlisted l hl)⟩
  freshId := preserves_of_content fun s _ => ⟨rfl, fun _ _ => trivial⟩
  batch hmem ws hws s hs := by
    refine ⟨?_, fun _ _ => trivial⟩
    rcases always_batch ws s.content s rfl with ⟨hcontent, -⟩ | hcontent <;> rw [hcontent]
    · exact hs
    · exact hs.edit hmem hws
  rescue := preserves_rescue

/-- A handle on any name is an operand that keeps a catalog, when its tasks do. -/
theorem preserves_handle {names : List String} {handle : Handle (Table Session) Session}
    (hstore : handle.table.store = Memory.store)
    (htarget : Target.Tasks (Anyway fun _ => Preserves (Catalogued names)) handle.target)
    (hentries : EntriesTasks (Anyway fun _ => Preserves (Catalogued names)) handle.entries) :
    handle.toOperand.Tasks (Anyway fun _ => Preserves (Catalogued names)) :=
  ReadsAt.handle (hstore ▸ readsAt_preserves handle.table.name) htarget
    hentries

end Preserves

/-! ## 3. What an action does to the catalog -/

/-- Creating a table lists it, or changes nothing. -/
theorem always_create (config : Config) {names : List String} {m : Content}
    (h : Catalogued names m) (t : String) (schema : Schema) :
    Always (fun _ m' => Catalogued names m' ∨ Catalogued (names ++ [t]) m') m
      (Database.create ⟨Memory.store, config⟩ t schema) := by
  have hchecked : Always (fun r m' => r = Database.checkTable t schema ∧ m' = m) m
      (ofOutcome (Database.checkTable t schema)) := Always.ofOutcome ⟨rfl, rfl⟩
  refine hchecked.bind (fun _ _ hm => Or.inl (hm.2 ▸ h)) ?_
  rintro _ m' ⟨hcheck, rfl⟩
  refine (always_tables config m').bind (fun _ _ hm => Or.inl (hm.1 ▸ h)) ?_
  rintro tables m'' ⟨rfl, htables⟩
  obtain rfl : tables = names := Except.ok.inj ((htables _ rfl).symm.trans h.listed)
  split_ifs with hmem
  · exact Always.throw_bind (Or.inl h)
  · have hnew : t ∉ tables := fun ht => hmem (List.contains_iff_mem.mpr ht)
    have ht := (plain_of_checkTable hcheck.symm).1
    have hwritten := h.create ht hnew (IndexList.ofFields
      ((schema.primary?.map SchemaField.name).getD "") (Database.indexedNames schema))
    refine (always_batch _ m'').bind (fun _ _ hm => hm.elim (fun hm => Or.inl (hm.1 ▸ h))
      fun hm => Or.inr (hm ▸ hwritten)) fun _ m₁ hm => Always.ofOutcome (x := .ok _) ?_
    exact hm.elim (fun hm => Or.inl (hm.1 ▸ h)) fun hm => Or.inr (hm ▸ hwritten)

/-- Dropping a table takes it from the list, or changes nothing. -/
theorem always_drop (config : Config) {names : List String} {m : Content}
    (h : Catalogued names m) (t : String) :
    Always (fun r m' => (Catalogued names m' ∧ (r = .ok () → t ∉ names)) ∨
      Catalogued (names.filter (· ≠ t)) m') m (Database.drop ⟨Memory.store, config⟩ t) := by
  have hkept : ∀ {r : Except Error Unit} {m'}, m' = m → (r = .ok () → t ∉ names) →
      (Catalogued names m' ∧ (r = .ok () → t ∉ names)) ∨ Catalogued (names.filter (· ≠ t)) m' :=
    fun hm hr => Or.inl ⟨hm ▸ h, hr⟩
  refine (always_tables config m).bind (fun _ _ hm => hkept hm.1 fun he => by cases he) ?_
  rintro tables m' ⟨rfl, htables⟩
  obtain rfl : tables = names := Except.ok.inj ((htables _ rfl).symm.trans h.listed)
  split_ifs with hmem
  · have ht : t ∈ tables := List.contains_iff_mem.mp hmem
    refine (always_scan _ m').bind (fun _ _ hm => hkept hm.1 fun he => by cases he) ?_
    rintro entries m'' ⟨rfl, hentries⟩
    obtain rfl := hentries _ rfl
    intro s hs
    rcases always_batch (dropWrites m'' tables t) m'' s hs with ⟨hm, e, he⟩ | hm
    · exact hkept hm fun hok => by cases he.symm.trans hok
    · exact Or.inr (hm ▸ h.drop ht)
  · have ht : t ∉ tables := fun ht => hmem (List.contains_iff_mem.mpr ht)
    exact Always.ofOutcome (x := .ok ()) (hkept rfl fun _ => ht)

/-- Every task in the operands of an operation has a property. -/
def Op.Tasks (P : Session Value → Prop) : Op → Prop
  | .create _ _ | .createIndex _ _ | .dropIndex _ _ | .insert _ _ _ => True
  | .update _ _ key _ | .replace _ _ key _ | .delete _ _ key => key.Tasks P
  | .deleteSelection _ _ keys entries =>
    (∀ k ∈ keys, OperandsTasks P k.keys) ∧ EntriesTasks P entries

/-- No task in the operands of an action changes the catalog. -/
def Action.Steady : Action → Prop
  | .run op => ∀ names, op.Tasks (Anyway fun _ => Preserves (Catalogued names))
  | .drop _ => True

/-- An operation on the rows or the indexes of any table, through any handle, keeps the catalog. -/
theorem Op.keepsCatalog (config : Config) {op : Op} (hcreate : ∀ t schema, op ≠ .create t schema)
    (names : List String) (hop : op.Tasks (Anyway fun _ => Preserves (Catalogued names))) :
    Anyway (fun _ => Preserves (Catalogued names)) (op.run config) := by
  have hclosed := closed_preserves (Catalogued names)
  have hdone : ∀ {α : Type} {x : Session α}, Anyway (fun _ => Preserves (Catalogued names)) x →
      Anyway (fun _ => Preserves (Catalogued names)) (do let _ ← x) := fun hx =>
    hclosed.andThen hx fun _ => hclosed.known _
  have ht : ∀ t, EditsAt (fun _ => Preserves (Catalogued names)) (tableOf config t).store
      (tableOf config t).name (t ∈ names) := editsAt_catalogued names
  cases op with
  | create t schema => exact absurd rfl (hcreate t schema)
  | createIndex t field => exact (ht t).createIndex field
  | dropIndex t field => exact (ht t).dropIndex field
  | insert t docs choice => exact hdone ((ht t).insert docs choice)
  | update t scope key patch => exact hdone ((ht t).update hop patch)
  | replace t scope key doc => exact hdone ((ht t).replace hop doc)
  | delete t scope key => exact hdone ((ht t).deleteRow hop)
  | deleteSelection t scope keys entries => exact hdone ((ht t).deleteStream hop.1 hop.2)

/-- **An action leaves a catalog in order,** with no name more than the one that it creates. -/
theorem Action.catalogued (config : Config) {action : Action} (haction : action.Steady)
    {names : List String} {s : Memory} (h : Catalogued names s.content) :
    ∃ names', Catalogued names' ((action.perform config).on s).2.content ∧
      ∀ t ∈ names', t ∈ names ∨ ∃ schema, action = .run (.create t schema) := by
  cases action with
  | drop t =>
    rcases always_drop config h t s rfl with ⟨hkept, -⟩ | hdropped
    · exact ⟨names, hkept, fun _ => Or.inl⟩
    · exact ⟨_, hdropped, fun t' ht' => Or.inl (List.mem_of_mem_filter ht')⟩
  | run op =>
    by_cases hcreate : ∃ t schema, op = .create t schema
    · obtain ⟨t, schema, rfl⟩ := hcreate
      have hdone : Always (fun _ m' => Catalogued names m' ∨ Catalogued (names ++ [t]) m') s.content
          ((Op.create t schema).run config) :=
        (always_create config h t schema).bind (fun _ _ hm => hm)
          fun _ m' hm => Always.ofOutcome (x := .ok ()) hm
      rcases hdone s rfl with hkept | hcreated
      · exact ⟨names, hkept, fun _ => Or.inl⟩
      · refine ⟨_, hcreated, fun t' ht' => (List.mem_append.mp ht').imp_right fun heq => ?_⟩
        exact ⟨schema, List.mem_singleton.mp heq ▸ rfl⟩
    · push Not at hcreate
      exact ⟨names, (op.keepsCatalog config hcreate names (haction names) s h).1, fun _ => Or.inl⟩

/-! ## 4. Runs -/

/-- From one content to another by actions, one after another, on whatever sessions: any calls may fail
    in them, and a handle may be bound to any name. -/
inductive Performed (config : Config) : Content → List Action → Content → Prop
  | done (m : Content) : Performed config m [] m
  | step {s : Memory} {action : Action} {actions : List Action} {m' : Content}
    (haction : action.Steady)
    (h : Performed config ((action.perform config).on s).2.content actions m') :
    Performed config s.content (action :: actions) m'

theorem Performed.catalogued {config : Config} {m m' : Content} {actions : List Action}
    (h : Performed config m actions m') {names : List String} (hm : Catalogued names m) :
    ∃ names', Catalogued names' m' ∧
      ∀ t ∈ names', t ∈ names ∨ ∃ schema, Action.run (.create t schema) ∈ actions := by
  induction h generalizing names with
  | done m => exact ⟨names, hm, fun _ => Or.inl⟩
  | step haction _ ih =>
    obtain ⟨names₁, hcatalog, hnames₁⟩ := Action.catalogued config haction hm
    obtain ⟨names', hcatalog', hnames'⟩ := ih hcatalog
    refine ⟨names', hcatalog', fun t ht => ?_⟩
    rcases hnames' t ht with hold | ⟨schema, hlater⟩
    · refine (hnames₁ t hold).imp_right fun ⟨schema, heq⟩ => ⟨schema, ?_⟩
      exact heq ▸ List.mem_cons_self
    · exact Or.inr ⟨schema, List.mem_cons_of_mem _ hlater⟩

/-- A table without rows and without entries in any index: a scan and every lookup answer nothing. -/
structure Blank (config : Config) (t : String) (s : Memory) : Prop where
  scan : ((tableOf config t).scan.on s).1 = .ok []
  lookup (field : String) (v : Value) : ((lookup Memory.store t field v).on s).1 = .ok []

theorem blank_of_unread (config : Config) {t : String} (ht : Plain t) {s : Memory} (hs : Healthy s)
    (hsorted : OrderedMap.Sorted s.content)
    (hunread : ∀ key, Owns t key → key ≠ indexListKey t → s.content.read key = none) :
    Blank config t s := by
  refine ⟨?_, fun field v => ?_⟩
  · have hnone : s.content.startingWith (Space.primary t).stem = [] := by
      refine Content.startingWith_eq_nil hsorted fun key hprefix => ?_
      refine hunread key ((owns_stem (.primary t)).extend hprefix) ?_
      obtain ⟨p, rfl⟩ := Space.stem_prefix.mp hprefix
      exact Space.named_ne (Space.wellNamed_primary ht) (Space.wellNamed_records ht) (by simp) _ _
    have hentries : Snapshot.store.scan (Space.primary t).stem s.content = .ok [] :=
      congrArg Except.ok hnone
    rw [(reads_scan rfl s hs).1]
    unfold Table.scan
    rw [Snapshot.bind_apply]
    exact congrArg (· >>= _) hentries
  · have hnone : s.content.read ((Space.index t field).key v) = entryText [] :=
      hunread _ (owns_named (.index t field) _) (indexList_ne_key t _ v).symm
    rw [(reads_lookup t field v s hs).1]
    exact lookup_of_entry hnone fun k hk => absurd hk List.not_mem_nil

/-- **A table that is not listed can be created, and is blank.** -/
theorem Catalogued.create_blank (config : Config) {names : List String} {s : Memory}
    (hs : Healthy s) (h : Catalogued names s.content) {t : String} (hnew : t ∉ names)
    {schema : Schema} (hcheck : Database.checkTable t schema = .ok ()) :
    let created := (Database.create ⟨Memory.store, config⟩ t schema).on s
    created.1 = .ok (Database.table ⟨Memory.store, config⟩ t schema) ∧ Blank config t created.2 := by
  intro created
  have ht := (plain_of_checkTable hcheck).1
  let l := IndexList.ofFields ((schema.primary?.map SchemaField.name).getD "")
    (Database.indexedNames schema)
  have hleads : Leads (fun r m' => r = .ok (Database.table ⟨Memory.store, config⟩ t schema) ∧
      m' = s.content.applyAll (creation names t l)) s.content
      (Database.create ⟨Memory.store, config⟩ t schema) := by
    refine Leads.bind_answer (Reads.ofOutcome _) ((Snapshot.ofOutcome_apply _ _).trans hcheck) ?_
    refine Leads.bind_answer (reads_tables config) h.listed ?_
    rw [if_neg (by simpa using hnew)]
    refine Leads.bind (Q := fun r m' => r = .ok () ∧ m' = s.content.applyAll (creation names t l))
      (Leads.batch ⟨rfl, rfl⟩) (fun e _ he => by cases he.1) ?_
    exact fun _ m' hm => Leads.pure ⟨rfl, hm.2⟩
  obtain ⟨hhealthy, hanswer, hcontent⟩ := hleads s hs rfl
  refine ⟨hanswer, blank_of_unread config ht hhealthy ?_ fun key howns hkey => ?_⟩
  · rw [hcontent]
    exact Content.sorted_applyAll h.sorted _
  · rw [hcontent]
    exact h.read_created ht hnew l howns hkey

/-- **The catalog is in order after every run,** whatever handles it goes through and whichever calls
    fail; and a table that was dropped, and not created since, can be created again and is blank then. -/
theorem catalog_in_order (config : Config) {actions : List Action} {m : Content}
    (h : Performed config [] actions m) :
    (∃ names, Catalogued names m) ∧
      ∀ s t, s.content = m → ((Database.drop ⟨Memory.store, config⟩ t).on s).1 = .ok () →
      ∀ between m',
        Performed config ((Database.drop ⟨Memory.store, config⟩ t).on s).2.content between m' →
        (∀ schema, Action.run (.create t schema) ∉ between) →
      ∀ s' schema, Healthy s' → s'.content = m' → Database.checkTable t schema = .ok () →
        let created := (Database.create ⟨Memory.store, config⟩ t schema).on s'
        created.1 = .ok (Database.table ⟨Memory.store, config⟩ t schema) ∧
          Blank config t created.2 := by
  obtain ⟨names, hcatalog, -⟩ := h.catalogued catalogued_empty
  refine ⟨⟨names, hcatalog⟩, ?_⟩
  rintro s t rfl hdrop between m' hbetween hnot s' schema hs' rfl hcheck
  obtain ⟨names₁, hdropped, hgone⟩ : ∃ names₁, Catalogued names₁
      ((Database.drop ⟨Memory.store, config⟩ t).on s).2.content ∧ t ∉ names₁ := by
    rcases always_drop config hcatalog t s rfl with ⟨hkept, hunlisted⟩ | hdropped
    · exact ⟨names, hkept, hunlisted hdrop⟩
    · exact ⟨_, hdropped, fun ht => of_decide_eq_true (List.mem_filter.mp ht).2 rfl⟩
  obtain ⟨names', hcatalog', hnames'⟩ := hbetween.catalogued hdropped
  have hnew : t ∉ names' := fun ht => by
    rcases hnames' t ht with hold | ⟨schema', hcreated⟩
    · exact hgone hold
    · exact hnot schema' hcreated
  exact hcatalog'.create_blank config hs' hnew hcheck

/-- A session after actions, one after another. -/
def performAll (config : Config) (s : Memory) (actions : List Action) : Memory :=
  actions.foldl (fun s action => ((action.perform config).on s).2) s

theorem performed_all (config : Config) {s : Memory} {actions : List Action}
    (h : ∀ action ∈ actions, action.Steady) :
    Performed config s.content actions (performAll config s actions).content := by
  unfold performAll
  induction actions generalizing s with
  | nil => exact .done s.content
  | cons action actions ih =>
    obtain ⟨haction, hrest⟩ := List.forall_mem_cons.mp h
    exact .step haction (ih hrest)

/-- Things with a colour, one of them red, are dropped and created again; in between a handle of before
    inserts a row, makes an index, drops one and deletes the row of a key that it reads, and a handle on
    a name with separators inserts a row. -/
theorem stale_handles_leave_nothing :
    let things : List SchemaField := [⟨"id", .string, true⟩, ⟨"colour", .string, true⟩]
    let red := Value.object [("id", .string "a"), ("colour", .string "red")]
    let before := performAll {} {} [.run (.create "things" things), .run (.insert "things" red none)]
    let dropped := ((Database.drop ⟨Memory.store, {}⟩ "things").on before).2
    let stale := [Action.run (.insert "things" red none), .run (.createIndex "things" "id"),
      .run (.dropIndex "things" "colour"),
      .run (.delete "things" [] (fieldOf "things" (.string "a") "id").toOperand),
      .run (.insert "things!i!colour" red none)]
    let after : Memory := { content := (performAll {} dropped stale).content }
    let created := (Database.create ⟨Memory.store, {}⟩ "things" things).on after
    (before.content.read ((Space.index "things" "colour").key (.string "red"))).isSome = true ∧
      (∃ names, Catalogued names before.content) ∧ Blank {} "things" created.2 := by
  intro things red before dropped stale after created
  have hsteady : ∀ action ∈ [Action.run (.create "things" things), .run (.insert "things" red none)],
      action.Steady := by simp [Action.Steady, Op.Tasks]
  have hkey : ∀ names, (fieldOf "things" (.string "a") "id").toOperand.Tasks
      (Anyway fun _ => Preserves (Catalogued names)) :=
    fun names => preserves_handle rfl trivial ⟨trivial, trivial⟩
  have hstale : ∀ action ∈ stale, action.Steady := by simp [stale, Action.Steady, Op.Tasks, hkey]
  have hnot : ∀ schema, Action.run (.create "things" schema) ∉ stale := by simp [stale]
  have hdrop : ((Database.drop ⟨Memory.store, {}⟩ "things").on before).1.toOption = some () := by
    decide +kernel
  have hcheck : (Database.checkTable "things" things).toOption = some () := by decide +kernel
  have hafter : after.content = (performAll {} dropped stale).content := by dsimp only [after]
  obtain ⟨hcatalog, hagain⟩ := catalog_in_order {} (performed_all {} (s := {}) hsteady)
  have hblank := hagain before "things" rfl (ok_of_toOption hdrop) stale _
    (performed_all {} (s := dropped) hstale) hnot after things ⟨rfl⟩ hafter
    (ok_of_toOption hcheck)
  exact ⟨by decide +kernel, hcatalog, hblank.2⟩

end KeyValue

end QueryAlgebra
