import QueryAlgebra.Table.WriteResult
import QueryAlgebra.Proofs.Json.Reading

/-!
# Fields of documents

What is found in a document after a field is written, after another document is written over it, and
after it is put under a key. None of them takes a document out of the readable ones, so whatever the
tables make of readable documents can be read again.
-/

namespace QueryAlgebra

/-! ## 1. Fields -/

namespace Fields

theorem get?_set (fields : Fields) (key key' : String) (v : Value) :
    (fields.set key v).get? key' = if key = key' then some v else fields.get? key' := by
  induction fields with
  | nil => rfl
  | cons f fields ih =>
    obtain ⟨name, old⟩ := f
    unfold set
    split
    · next h =>
      subst h
      simp only [get?]
      split <;> rfl
    · next hne =>
      simp only [get?, ih]
      split
      · next h =>
        subst h
        rw [if_neg (fun h => hne h.symm)]
      · rfl

theorem mem_set {fields : Fields} {key : String} {v : Value} {f : String × Value}
    (h : f ∈ fields.set key v) : f.2 = v ∨ f ∈ fields := by
  induction fields with
  | nil => exact Or.inl (congrArg Prod.snd (List.mem_singleton.mp h))
  | cons g fields ih =>
    obtain ⟨name, old⟩ := g
    unfold set at h
    split at h
    · rcases List.mem_cons.mp h with h | h
      · exact Or.inl (congrArg Prod.snd h)
      · exact Or.inr (List.mem_cons_of_mem _ h)
    · rcases List.mem_cons.mp h with h | h
      · exact Or.inr (h ▸ List.mem_cons_self)
      · exact (ih h).imp_right (List.mem_cons_of_mem _)

theorem mem_names_set {fields : Fields} {key : String} {v : Value} {name : String}
    (h : name ∈ (fields.set key v).map Prod.fst) : name = key ∨ name ∈ fields.map Prod.fst := by
  induction fields with
  | nil => exact Or.inl (List.mem_singleton.mp h)
  | cons g fields ih =>
    obtain ⟨name₀, old⟩ := g
    unfold set at h
    split at h
    · exact Or.inr h
    · rcases List.mem_cons.mp h with h | h
      · exact Or.inr (h ▸ List.mem_cons_self)
      · exact (ih h).imp_right (List.mem_cons_of_mem _)

theorem nodup_set {fields : Fields} (h : (fields.map Prod.fst).Nodup) (key : String) (v : Value) :
    ((fields.set key v).map Prod.fst).Nodup := by
  induction fields with
  | nil => exact List.nodup_singleton key
  | cons g fields ih =>
    obtain ⟨name, old⟩ := g
    obtain ⟨hhead, htail⟩ := List.nodup_cons.mp h
    unfold set
    split
    · exact h
    · next hne =>
      refine List.nodup_cons.mpr ⟨fun hm => ?_, ih htail⟩
      rcases mem_names_set hm with h | h
      · exact hne h
      · exact hhead h

theorem mem_of_get? {fields : Fields} {key : String} {v : Value} (h : fields.get? key = some v) :
    (key, v) ∈ fields := by
  induction fields with
  | nil => cases h
  | cons f fields ih =>
    obtain ⟨name, w⟩ := f
    unfold get? at h
    split at h
    · next heq =>
      subst heq
      cases h
      exact List.mem_cons_self
    · exact List.mem_cons_of_mem _ (ih h)

theorem get?_eq_none_of_not_mem {fields : Fields} {key : String}
    (h : key ∉ fields.map Prod.fst) : fields.get? key = none := by
  cases hg : fields.get? key with
  | none => rfl
  | some v => exact absurd (List.mem_map.mpr ⟨_, mem_of_get? hg, rfl⟩) h

theorem isSome_get? {fields : Fields} {key : String} :
    (fields.get? key).isSome = true ↔ key ∈ fields.map Prod.fst := by
  induction fields with
  | nil => simp [get?]
  | cons f fields ih =>
    obtain ⟨name, v⟩ := f
    have hcons : get? ((name, v) :: fields) key
        = if name = key then some v else get? fields key := rfl
    rw [hcons, List.map_cons, List.mem_cons, ← ih]
    split
    · next heq => simp [heq]
    · next hne => simp [Ne.symm hne]

/-- **Of two documents merged the second counts.** -/
theorem get?_merge (fields : Fields) {changes : Fields} (h : (changes.map Prod.fst).Nodup)
    (key : String) : (fields.merge changes).get? key = (changes.get? key).or (fields.get? key) := by
  unfold merge
  induction changes generalizing fields with
  | nil => rfl
  | cons f changes ih =>
    obtain ⟨name, v⟩ := f
    obtain ⟨hhead, htail⟩ := List.nodup_cons.mp h
    rw [List.foldl_cons, ih _ htail, get?_set]
    simp only [get?]
    split
    · next heq =>
      subst heq
      rw [get?_eq_none_of_not_mem hhead]
      rfl
    · rfl

theorem get?_erase (fields : Fields) {key key' : String} (h : key' ≠ key) :
    (fields.erase key).get? key' = fields.get? key' := by
  unfold erase
  induction fields with
  | nil => rfl
  | cons f fields ih =>
    obtain ⟨name, v⟩ := f
    have hcons : ∀ rest : Fields, get? ((name, v) :: rest) key'
        = if name = key' then some v else rest.get? key' := fun _ => rfl
    rw [List.filter_cons, hcons fields]
    split
    · rw [hcons, ih]
    · next hdropped =>
      have hname : name = key := by simpa using hdropped
      rw [ih, if_neg (fun heq => h (heq.symm.trans hname))]

theorem get?_keyed_of_ne (doc : Fields) (key : Value) {primaryKey name : String}
    (h : name ≠ primaryKey) : (doc.keyed primaryKey key).get? name = doc.get? name :=
  (if_neg h.symm).trans (doc.get?_erase h)

theorem get?_keyed (doc : Fields) (primaryKey : String) (key : Value) :
    (doc.keyed primaryKey key).get? primaryKey = some key := by
  unfold keyed get?
  exact if_pos rfl

theorem eq_of_mem_keyed {doc : Fields} {primaryKey : String} {key v : Value}
    (h : (primaryKey, v) ∈ doc.keyed primaryKey key) : v = key := by
  rcases List.mem_cons.mp h with heq | hmem
  · exact (Prod.mk.inj heq).2
  · exact absurd rfl (of_decide_eq_true (List.mem_filter.mp hmem).2)

/-- A document that passes the check names the key of the row, or gives none. -/
theorem of_checkKey {doc : Fields} {primaryKey : String} {key v : Value}
    (h : doc.checkKey primaryKey key = .ok ()) (hv : doc.get? primaryKey = some v) :
    v.isNull = true ∨ v.looseEq key = true := by
  unfold Fields.checkKey at h
  simp only [hv] at h
  split at h
  · cases h
  · next hnot =>
    by_cases hnull : v.isNull = true
    · exact Or.inl hnull
    · exact Or.inr (by simpa [hnull] using hnot)

end Fields

/-! ## 2. Readable documents -/

namespace Value

theorem properItems_of_forall {items : List Value} (h : ∀ v ∈ items, v.Proper) :
    ProperItems items := by
  induction items with
  | nil => trivial
  | cons v items ih =>
    obtain ⟨hv, hitems⟩ := List.forall_mem_cons.mp h
    rw [ProperItems]
    exact ⟨hv, ih hitems⟩

theorem properFields_of_forall {fields : Fields} (h : ∀ f ∈ fields, f.2.Proper) :
    ProperFields fields := by
  induction fields with
  | nil => trivial
  | cons f fields ih =>
    obtain ⟨hf, hfields⟩ := List.forall_mem_cons.mp h
    rw [ProperFields]
    exact ⟨hf, ih hfields⟩

theorem Readable.proper {d : Nat} {v : Value} (h : v.Readable d) : v.Proper := by
  induction h with
  | array _ ih =>
    rw [Proper]
    exact properItems_of_forall ih
  | object hnames _ ih =>
    rw [Proper]
    exact ⟨hnames, properFields_of_forall ih⟩
  | _ => simp [Proper]

section Documents

variable {d : Nat} {fields changes : Fields}

theorem Readable.nodup (h : Readable (d + 1) (.object fields)) : (fields.map Prod.fst).Nodup := by
  cases h with
  | object hnames _ => exact hnames

theorem Readable.of_mem (h : Readable (d + 1) (.object fields)) {f : String × Value}
    (hf : f ∈ fields) : f.2.Readable d := by
  cases h with
  | object _ hfields => exact hfields f hf

theorem Readable.get? (h : Readable (d + 1) (.object fields)) {key : String} {v : Value}
    (hv : fields.get? key = some v) : v.Readable d := h.of_mem (Fields.mem_of_get? hv)

theorem Readable.set (h : Readable (d + 1) (.object fields)) (key : String) {v : Value}
    (hv : v.Readable d) : Readable (d + 1) (.object (fields.set key v)) := by
  refine .object (Fields.nodup_set h.nodup key v) (fun f hf => ?_)
  rcases Fields.mem_set hf with heq | hmem
  · rw [heq]
    exact hv
  · exact h.of_mem hmem

theorem Readable.merge (h : Readable (d + 1) (.object fields))
    (h' : Readable (d + 1) (.object changes)) :
    Readable (d + 1) (.object (fields.merge changes)) := by
  have hchanges : ∀ f ∈ changes, f.2.Readable d := fun f hf => h'.of_mem hf
  unfold Fields.merge
  clear h'
  induction changes generalizing fields with
  | nil => exact h
  | cons f changes ih =>
    obtain ⟨hf, hrest⟩ := List.forall_mem_cons.mp hchanges
    exact ih (h.set f.1 hf) hrest

theorem Readable.keyed (h : Readable (d + 1) (.object fields)) (primaryKey : String) {key : Value}
    (hkey : key.Readable d) : Readable (d + 1) (.object (fields.keyed primaryKey key)) := by
  have hsub : (fields.erase primaryKey).Sublist fields := List.filter_sublist
  refine .object (List.nodup_cons.mpr ⟨fun hm => ?_, ?_⟩) (fun f hf => ?_)
  · obtain ⟨f, hf, heq⟩ := List.mem_map.mp hm
    have hne := (List.mem_filter.mp hf).2
    exact absurd heq (by simpa using hne)
  · exact (hsub.map Prod.fst).nodup h.nodup
  · rcases List.mem_cons.mp hf with rfl | hmem
    · exact hkey
    · exact h.of_mem (hsub.subset hmem)

end Documents

end Value

/-! ## 3. What can be stored -/

/-- A value that a document may hold and still be read. -/
abbrev Value.Storable (v : Value) : Prop := v.Readable (Json.depthLimit - 1)

/-- A document that can be read after it has been stored. -/
abbrev Fields.Storable (doc : Fields) : Prop := Value.Readable Json.depthLimit (.object doc)

theorem Value.storable_string (s : String) : (Value.string s).Storable := .string _ s

end QueryAlgebra
