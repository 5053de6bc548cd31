import QueryAlgebra.KeyValue.Space
import QueryAlgebra.Proofs.Json.Quotes
import QueryAlgebra.Proofs.Value.Fingerprint

/-!
# Places do not collide

The keys of the store are read from the left: a table's name ends at the first separator after it,
and so does a field's. So two places are equal only when they are of one kind, of one table and one
field, and of one fingerprint. A record's key is told from every other by its last character: no
fingerprint ends like it (`fingerprint_last`).

Within one table the entries of its indexes are told apart even when the names hold separators: what
stands behind a separator in a fingerprint is no fingerprint (`entry_inj`).
-/

namespace QueryAlgebra

namespace KeyValue

/-! ## 1. Names -/

/-- A name that a table or an index may have. -/
structure Plain (name : String) : Prop where
  nonempty : name ≠ ""
  separator : '!' ∉ name.toList

theorem plain_of_checkName {kind name : String} (h : checkName kind name = .ok ()) : Plain name := by
  unfold checkName at h
  split at h
  · cases h
  · next hne =>
    simp only [Bool.or_eq_true, not_or, String.isEmpty_iff, List.contains_iff_mem] at hne
    exact ⟨hne.1, hne.2⟩

/-- Before the first separator two texts agree. -/
theorem split_separator {xs ys r r' : List Char} (hx : '!' ∉ xs) (hy : '!' ∉ ys)
    (h : xs ++ '!' :: r = ys ++ '!' :: r') : xs = ys ∧ r = r' := by
  induction xs generalizing ys with
  | nil =>
    cases ys with
    | nil => exact ⟨rfl, (List.cons.inj h).2⟩
    | cons y ys => exact absurd (List.mem_cons.mpr (Or.inl (List.cons.inj h).1)) hy
  | cons x xs ih =>
    cases ys with
    | nil => exact absurd (List.mem_cons.mpr (Or.inl (List.cons.inj h).1.symm)) hx
    | cons y ys =>
      obtain ⟨rfl, htail⟩ := List.cons.inj h
      obtain ⟨rfl, rfl⟩ := ih (fun hm => hx (List.mem_cons_of_mem _ hm))
        (fun hm => hy (List.mem_cons_of_mem _ hm)) htail
      exact ⟨rfl, rfl⟩

/-! ## 2. Keys of a table -/

namespace Space

/-- The keys that begin with the stem of a part are the places in it. -/
theorem stem_prefix {space : Space} {key : String} :
    space.stem.toList <+: key.toList ↔ ∃ p, key = space.named p := by
  constructor
  · rintro ⟨rest, h⟩
    refine ⟨String.ofList rest, String.toList_inj.mp ?_⟩
    simp [named, ← h]
  · rintro ⟨p, rfl⟩
    exact ⟨p.toList, by simp [named]⟩

theorem named_injective {space : Space} {p q : String} (h : space.named p = space.named q) :
    p = q := by
  have := congrArg String.toList h
  simp only [named, String.toList_append] at this
  exact String.toList_inj.mp (List.append_cancel_left this)

/-- A part that holds single values or records, of a table and a field that may have their names. -/
def WellNamed : Space → Prop
  | .table _ => False
  | .primary t => Plain t
  | .index t f => Plain t ∧ Plain f
  | .records t => Plain t
  | .database => True

theorem wellNamed_primary {t : String} (ht : Plain t) : (primary t).WellNamed := ht

theorem wellNamed_index {t f : String} (ht : Plain t) (hf : Plain f) : (index t f).WellNamed :=
  ⟨ht, hf⟩

theorem wellNamed_records {t : String} (ht : Plain t) : (records t).WellNamed := ht

theorem wellNamed_database : database.WellNamed := trivial

/-- The table that a part belongs to; the records of the database belong to none. -/
def tableName : Space → String
  | .table t | .primary t | .index t _ | .records t => t
  | .database => ""

/-- The mark of the part among those of its table, and what stands after it in the key of a place. -/
def suffix (p : String) : Space → List Char
  | .table _ => p.toList
  | .primary _ => 'p' :: '!' :: p.toList
  | .index _ f => 'i' :: '!' :: (f.toList ++ '!' :: p.toList)
  | .records _ => 'm' :: '!' :: p.toList
  | .database => 'm' :: '!' :: p.toList

theorem toList_named (space : Space) (p : String) :
    (space.named p).toList = '!' :: (space.tableName.toList ++ '!' :: space.suffix p) := by
  cases space <;> simp [named, stem, tableName, suffix]

theorem WellNamed.separator {space : Space} (h : space.WellNamed) :
    '!' ∉ space.tableName.toList := by
  cases space with
  | table t => exact absurd h id
  | primary t => exact Plain.separator h
  | index t f => exact Plain.separator h.1
  | records t => exact Plain.separator h
  | database => exact List.not_mem_nil

/-- **Two places are equal only when they are the same place of the same part.** -/
theorem named_inj {space space' : Space} (h : space.WellNamed) (h' : space'.WellNamed)
    {p p' : String} (heq : space.named p = space'.named p') : space = space' ∧ p = p' := by
  have hlist := congrArg String.toList heq
  rw [toList_named, toList_named] at hlist
  obtain ⟨htable, hsuffix⟩ := split_separator h.separator h'.separator (List.cons.inj hlist).2
  have htable' := String.toList_inj.mp htable
  have hmark : ∀ {c d : Char} {r r' : List Char}, c ≠ d → c :: r ≠ d :: r' :=
    fun hne hcons => hne (List.cons.inj hcons).1
  have hrest : ∀ {c : Char} {q q' : String}, c :: '!' :: q.toList = c :: '!' :: q'.toList → q = q' :=
    fun hcons => String.toList_inj.mp (List.cons.inj (List.cons.inj hcons).2).2
  cases space with
  | table t => exact absurd h id
  | primary t =>
    cases space' with
    | table t' => exact absurd h' id
    | primary t' => exact ⟨congrArg primary htable', hrest hsuffix⟩
    | index t' f' => exact absurd hsuffix (hmark (by decide))
    | records t' => exact absurd hsuffix (hmark (by decide))
    | database => exact absurd hsuffix (hmark (by decide))
  | index t f =>
    cases space' with
    | table t' => exact absurd h' id
    | primary t' => exact absurd hsuffix (hmark (by decide))
    | index t' f' =>
      obtain ⟨hfield, hp⟩ := split_separator h.2.separator h'.2.separator
        (List.cons.inj (List.cons.inj hsuffix).2).2
      exact ⟨congrArg₂ index htable' (String.toList_inj.mp hfield), String.toList_inj.mp hp⟩
    | records t' => exact absurd hsuffix (hmark (by decide))
    | database => exact absurd hsuffix (hmark (by decide))
  | records t =>
    cases space' with
    | table t' => exact absurd h' id
    | primary t' => exact absurd hsuffix (hmark (by decide))
    | index t' f' => exact absurd hsuffix (hmark (by decide))
    | records t' => exact ⟨congrArg records htable', hrest hsuffix⟩
    | database => exact absurd htable' (Plain.nonempty h)
  | database =>
    cases space' with
    | table t' => exact absurd h' id
    | primary t' => exact absurd hsuffix (hmark (by decide))
    | index t' f' => exact absurd hsuffix (hmark (by decide))
    | records t' => exact absurd htable'.symm (Plain.nonempty h')
    | database => exact ⟨rfl, hrest hsuffix⟩

/-- Places of different parts are different. -/
theorem named_ne {space space' : Space} (h : space.WellNamed) (h' : space'.WellNamed)
    (hne : space ≠ space') (p p' : String) : space.named p ≠ space'.named p' :=
  fun heq => hne (named_inj h h' heq).1

end Space

/-! ## 3. Any names -/

/-- Places of one table are told apart by the marks of their parts. -/
theorem Space.named_ne_of_mark {space space' : Space} (htable : space.tableName = space'.tableName)
    {p q : String} (hmark : (space.suffix p).head? ≠ (space'.suffix q).head?) :
    space.named p ≠ space'.named q := by
  intro h
  have hlist := congrArg String.toList h
  rw [toList_named, toList_named, htable] at hlist
  have hrest := List.append_cancel_left (List.cons.inj hlist).2
  exact hmark (congrArg List.head? (List.cons.inj hrest).2)

theorem Space.row_ne_entry (t f p q : String) :
    (Space.primary t).named p ≠ (Space.index t f).named q :=
  @named_ne_of_mark (.primary t) (.index t f) rfl p q (by simp [suffix])

theorem Space.row_ne_record (t p q : String) :
    (Space.primary t).named p ≠ (Space.records t).named q :=
  @named_ne_of_mark (.primary t) (.records t) rfl p q (by simp [suffix])

theorem Space.entry_ne_record (t f p q : String) :
    (Space.index t f).named p ≠ (Space.records t).named q :=
  @named_ne_of_mark (.index t f) (.records t) rfl p q (by simp [suffix])

/-- Indexes of one table have no place in common when the names of their fields hold no separator. -/
theorem Space.entry_ne_entry {f g : String} (hf : Plain f) (hg : Plain g) (hne : f ≠ g)
    (t p q : String) : (Space.index t f).named p ≠ (Space.index t g).named q := by
  intro h
  have hlist := congrArg String.toList h
  rw [toList_named, toList_named] at hlist
  have hrest := List.append_cancel_left (List.cons.inj hlist).2
  have hfields := (List.cons.inj (List.cons.inj (List.cons.inj hrest).2).2).2
  exact hne (String.toList_inj.mp (split_separator hf.separator hg.separator hfields).1)

/-- A fingerprint does not stand behind a separator in another. -/
theorem fingerprint_ne_behind (v w : Value) (before : List Char) :
    v.fingerprint.toList ≠ before ++ '!' :: w.fingerprint.toList := by
  rw [v.fingerprint_eq_json, w.fingerprint_eq_json]
  exact Value.json_ne_behind v.normal w.normal before

/-- **Two entries of one table have one key only when they are of one field and one fingerprint,**
    whatever the names are. -/
theorem Space.entry_inj {t f g : String} {v w : Value}
    (h : (Space.index t f).key v = (Space.index t g).key w) :
    f = g ∧ v.fingerprint = w.fingerprint := by
  have hlist := congrArg String.toList h
  rw [Space.key, Space.key, toList_named, toList_named] at hlist
  have hsuffix := List.append_cancel_left (List.cons.inj hlist).2
  have hfields : f.toList ++ '!' :: v.fingerprint.toList
      = g.toList ++ '!' :: w.fingerprint.toList :=
    (List.cons.inj (List.cons.inj (List.cons.inj hsuffix).2).2).2
  have hequal : ∀ {f g : String} {v w : Value} {rest : List Char}, g.toList = f.toList ++ rest →
      '!' :: v.fingerprint.toList = rest ++ '!' :: w.fingerprint.toList →
      f = g ∧ v.fingerprint = w.fingerprint := by
    intro f g v w rest hg hrest
    cases rest with
    | nil =>
      refine ⟨String.toList_inj.mp (by rw [hg, List.append_nil]), ?_⟩
      exact String.toList_inj.mp (List.cons.inj hrest).2
    | cons c rest => exact absurd (List.cons.inj hrest).2 (fingerprint_ne_behind v w rest)
  rcases List.append_eq_append_iff.mp hfields with ⟨rest, hg, hrest⟩ | ⟨rest, hf, hrest⟩
  · exact hequal hg hrest
  · obtain ⟨hgf, hwv⟩ := hequal hf hrest
    exact ⟨hgf.symm, hwv.symm⟩

/-! ## 4. Records -/

theorem json_last (v : Value) : ∃ init c, v.json.toList = init ++ [c] ∧ c ≠ '_' := by
  cases v with
  | null => exact ⟨"nul".toList, 'l', by rw [Value.json]; rfl, by decide⟩
  | bool b =>
    cases b
    · exact ⟨"fals".toList, 'e', by rw [Value.json]; rfl, by decide⟩
    · exact ⟨"tru".toList, 'e', by rw [Value.json]; rfl, by decide⟩
  | number n =>
    obtain ⟨c, cs, hw, -⟩ := Numeral.written_eq_cons n.parts_plain
    rcases List.eq_nil_or_concat n.parts.written with hnil | ⟨init, d, hlast⟩
    · rw [hw] at hnil
      cases hnil
    · refine ⟨init, d, by rw [Value.json, n.toList_text, hlast, List.concat_eq_append], ?_⟩
      rintro rfl
      have hmem : '_' ∈ n.parts.written := by simp [hlast]
      exact absurd (Numeral.continues_of_mem_written n.parts_plain hmem) (by decide)
  | string s =>
    exact ⟨'"' :: s.toList.flatMap Json.escapeChar, '"', by rw [Value.json, Json.toList_quote]; rfl,
      by decide⟩
  | array items =>
    exact ⟨'[' :: (Value.jsonItems items).toList, ']', Value.toList_json_array items, by decide⟩
  | object fields =>
    exact ⟨'\x7b' :: (Value.jsonFields fields).toList, '\x7d', Value.toList_json_object fields,
      by decide⟩

/-- **No fingerprint ends like the name of a record.** -/
theorem fingerprint_last (v : Value) :
    ∃ init c, v.fingerprint.toList = init ++ [c] ∧ c ≠ '_' := by
  rw [v.fingerprint_eq_json]
  exact json_last v.normal

/-- **The place of an index list is no place of a value,** whatever the name of its table. -/
theorem indexList_ne_key (t : String) (space : Space) (v : Value) :
    (Space.records t).named indexListName ≠ space.key v := by
  intro h
  obtain ⟨init, c, hlast, hc⟩ := fingerprint_last v
  have hlist := congrArg String.toList h
  rw [Space.key, Space.named, Space.named, String.toList_append, String.toList_append, hlast,
    ← List.append_assoc] at hlist
  have hname : indexListName.toList = "__index_list_".toList ++ ['_'] := rfl
  rw [hname, ← List.append_assoc] at hlist
  exact hc (List.singleton_inj.mp (List.append_inj' hlist rfl).2.symm)

theorem indexList_ne_tableList (t : String) :
    (Space.records t).named indexListName ≠ Space.database.named tableListName := by
  intro h
  have hlist := congrArg String.toList h
  rw [Space.named, Space.named, String.toList_append, String.toList_append] at hlist
  have hlength : indexListName.toList.length = tableListName.toList.length := by decide
  exact absurd (List.append_inj' hlist hlength).2 (by decide)

theorem indexList_injective {t t' : String}
    (h : (Space.records t).named indexListName = (Space.records t').named indexListName) :
    t = t' := by
  have hlist := congrArg String.toList h
  simp only [Space.named, Space.stem, String.toList_append] at hlist
  have htable := List.append_cancel_right (List.append_cancel_right hlist)
  exact String.toList_inj.mp (List.append_cancel_left htable)

end KeyValue

end QueryAlgebra
