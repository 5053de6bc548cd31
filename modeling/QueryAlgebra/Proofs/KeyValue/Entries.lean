import QueryAlgebra.Proofs.KeyValue.Listing
import QueryAlgebra.Proofs.KeyValue.Space

/-!
# Entries that a commit writes

The writes of a commit go to entries of the indexes, and settle each of them on its list afterwards.

* `entryChange_answer`: the write of one list, as it is changed.
* `fieldWrites_answer`, `indexWrites_answer`: the writes of one index, and from there by induction
  those of all indexes.
-/

namespace QueryAlgebra

namespace KeyValue

/-! ## 1. Where the writes go -/

section Places

variable {m : Content} {t field : String} {key : Value} {old new : Option Fields}

theorem fieldWrites_eq : fieldWrites Snapshot.store t key old new field
    = if placeIn field old = placeIn field new then pure [] else do
        let leave ← entryChange Snapshot.store t field (withoutKey · key) (indexed old field)
        let enter ← entryChange Snapshot.store t field (withKey · key) (indexed new field)
        return leave ++ enter := rfl

theorem key_entryChange {change : List Value → List Value} {v : Option Value} {ws : List Write}
    (h : entryChange Snapshot.store t field change v m = .ok ws) :
    ∀ w ∈ ws, ∃ u, w.key = (Space.index t field).key u ∧ v = some u := by
  intro w hw
  cases v with
  | none =>
    cases h
    exact absurd hw List.not_mem_nil
  | some u =>
    rw [entryChange, Snapshot.bind_apply] at h
    obtain ⟨keys, -, hkeys⟩ := bind_eq_ok.mp h
    cases hkeys
    exact ⟨u, List.mem_singleton.mp hw ▸ key_listWrite _ _, rfl⟩

theorem key_fieldWrites {ws : List Write}
    (h : fieldWrites Snapshot.store t key old new field m = .ok ws) :
    ∀ w ∈ ws, ∃ v, w.key = (Space.index t field).key v ∧
      (indexed old field = some v ∨ indexed new field = some v) := by
  rw [fieldWrites_eq] at h
  split at h
  · cases h
    exact fun w hw => absurd hw List.not_mem_nil
  · rw [Snapshot.bind_apply] at h
    obtain ⟨leave, hleave, h⟩ := bind_eq_ok.mp h
    rw [Snapshot.bind_apply] at h
    obtain ⟨enter, henter, h⟩ := bind_eq_ok.mp h
    cases h
    intro w hw
    rcases List.mem_append.mp hw with hw | hw
    · obtain ⟨v, hkey, hv⟩ := key_entryChange hleave w hw
      exact ⟨v, hkey, Or.inl hv⟩
    · obtain ⟨v, hkey, hv⟩ := key_entryChange henter w hw
      exact ⟨v, hkey, Or.inr hv⟩

/-- **The writes for the indexes go to the entries of the old and the new values.** -/
theorem key_indexWrites {fields : List String} {ws : List Write}
    (h : indexWrites Snapshot.store t key old new fields m = .ok ws) :
    ∀ w ∈ ws, ∃ f ∈ fields, ∃ v, w.key = (Space.index t f).key v ∧
      (indexed old f = some v ∨ indexed new f = some v) := by
  induction fields generalizing ws with
  | nil =>
    cases h
    exact fun w hw => absurd hw List.not_mem_nil
  | cons field fields ih =>
    unfold indexWrites at h
    rw [Snapshot.bind_apply] at h
    obtain ⟨ws₁, h₁, h⟩ := bind_eq_ok.mp h
    rw [Snapshot.bind_apply] at h
    obtain ⟨ws₂, h₂, h⟩ := bind_eq_ok.mp h
    cases h
    intro w hw
    rcases List.mem_append.mp hw with hw | hw
    · obtain ⟨v, hv⟩ := key_fieldWrites h₁ w hw
      exact ⟨field, List.mem_cons_self, v, hv⟩
    · obtain ⟨f, hf, v, hv⟩ := ih h₂ w hw
      exact ⟨f, List.mem_cons_of_mem _ hf, v, hv⟩

end Places

/-! ## 2. What the writes leave -/

section Commit

variable {m : Content} {t field : String} (key : Value) (old new : Option Fields)

/-- Every entry of an index on a field can be read, as a list of keys. -/
def Listed (m : Content) (t field : String) (keys : String → List Value) : Prop :=
  ∀ v : Value, v.isNull = false → lookup Snapshot.store t field v m = .ok (keys v.fingerprint)

variable {keys : String → List Value} (h : Listed m t field keys)

/-- The write of a list under a value, when there is a value. -/
def entryWrite (t field : String) (list : String → List Value) (v : Option Value) : List Write :=
  (v.map (fun v => listWrite ((Space.index t field).key v) (list v.fingerprint))).toList

theorem mem_entryWrite {list : String → List Value} {v : Option Value} {w : Write}
    (hw : w ∈ entryWrite t field list v) :
    ∃ u, v = some u ∧ w.key = (Space.index t field).key u
      ∧ w.value = entryText (list u.fingerprint) := by
  cases v with
  | none => cases hw
  | some u =>
    rw [List.mem_singleton.mp hw]
    exact ⟨u, rfl, key_listWrite _ _, value_listWrite _ _⟩

theorem entryWrite_key {list : String → List Value} {v : Value} :
    ∃ w ∈ entryWrite t field list (some v), w.key = (Space.index t field).key v :=
  ⟨_, List.mem_singleton.mpr rfl, key_listWrite _ _⟩

/-- What a document has in an index is not null. -/
theorem isNull_indexed {doc : Option Fields} {v : Value} (hv : indexed doc field = some v) :
    v.isNull = false := by
  unfold indexed at hv
  have hnull := (Option.filter_eq_some_iff.mp hv).2
  simpa using hnull

include h

theorem entryChange_answer (change : List Value → List Value) {v : Option Value}
    (hv : ∀ u, v = some u → u.isNull = false) :
    entryChange Snapshot.store t field change v m
      = .ok (entryWrite t field (fun p => change (keys p)) v) := by
  cases v with
  | none => rfl
  | some v =>
    rw [entryChange, Snapshot.bind_apply, h v (hv v rfl)]
    rfl

/-- **The writes for one field put every entry that they touch on its new list,** and the list of every
    other entry stays. -/
theorem fieldWrites_answer : ∃ ws, fieldWrites Snapshot.store t key old new field m = .ok ws
    ∧ ∀ p, Content.Sets ws ((Space.index t field).named p)
        (entryText (keysAfter key (placeIn field old) (placeIn field new) p (keys p)))
        (keysAfter key (placeIn field old) (placeIn field new) p (keys p) = keys p) := by
  by_cases hsame : placeIn field old = placeIn field new
  · refine ⟨[], ?_, fun p => ?_⟩
    · rw [fieldWrites_eq, if_pos hsame]
      rfl
    · rw [keysAfter, if_pos hsame]
      exact Content.sets_of_not_mem rfl (fun w hw => absurd hw List.not_mem_nil)
  · refine ⟨entryWrite t field (fun p => withoutKey (keys p) key) (indexed old field)
      ++ entryWrite t field (fun p => withKey (keys p) key) (indexed new field), ?_, fun p => ?_⟩
    · rw [fieldWrites_eq, if_neg hsame, Snapshot.bind_apply,
        entryChange_answer h _ (fun _ => isNull_indexed), ok_bind, Snapshot.bind_apply,
        entryChange_answer h _ (fun _ => isNull_indexed)]
      rfl
    · rw [keysAfter, if_neg hsame]
      constructor
      · intro w hw hkey
        rcases List.mem_append.mp hw with hw | hw
        · obtain ⟨v, hv, hkey', hvalue⟩ := mem_entryWrite hw
          obtain rfl := Space.named_injective (hkey'.symm.trans hkey)
          have hbefore : placeIn field old = some v.fingerprint := by rw [placeIn, hv]; rfl
          have hafter : ¬placeIn field new = some v.fingerprint :=
            fun hin => hsame (hbefore.trans hin.symm)
          rw [if_neg hafter, if_pos hbefore, hvalue]
        · obtain ⟨v, hv, hkey', hvalue⟩ := mem_entryWrite hw
          obtain rfl := Space.named_injective (hkey'.symm.trans hkey)
          have hafter : placeIn field new = some v.fingerprint := by rw [placeIn, hv]; rfl
          rw [if_pos hafter, hvalue]
      · intro hother
        have hnot : ∀ (list : String → List Value) (doc : Option Fields),
            (∀ w ∈ entryWrite t field list (indexed doc field),
              w.key ≠ (Space.index t field).named p) →
            ¬placeIn field doc = some p := by
          intro list doc hnone hplace
          obtain ⟨v, hv, rfl⟩ := Option.map_eq_some_iff.mp hplace
          obtain ⟨w, hw, hkey⟩ := @entryWrite_key t field list v
          exact hnone w (hv ▸ hw) hkey
        rw [if_neg (hnot _ new (fun w hw => hother w (List.mem_append_right _ hw))),
          if_neg (hnot _ old (fun w hw => hother w (List.mem_append_left _ hw)))]

end Commit

/-- No entry of an index on another field has the key of this place. -/
def AloneAt (t : String) (fields : List String) (f p : String) : Prop :=
  ∀ g ∈ fields, g ≠ f → ∀ v, (Space.index t g).key v ≠ (Space.index t f).named p

theorem aloneAt_plain {t f : String} (ht : Plain t) {fields : List String}
    (hfields : ∀ g ∈ fields, Plain g) (hf : Plain f) (p : String) : AloneAt t fields f p := by
  intro g hg hne v heq
  obtain ⟨hspace, -⟩ := Space.named_inj (Space.wellNamed_index ht (hfields g hg))
    (Space.wellNamed_index ht hf) heq
  exact hne (Space.index.inj hspace).2

/-- Whatever the names are, the place of a value is that of no other field. -/
theorem aloneAt_value (t : String) (fields : List String) (f : String) (v : Value) :
    AloneAt t fields f v.fingerprint :=
  fun _ _ hne _ heq => hne (Space.entry_inj heq).1

/-- **The writes of a commit put every entry that they touch on its new list,** and the list of every
    other entry stays. A field that is listed twice is written twice, with the same list. -/
theorem indexWrites_answer {m : Content} {t : String} (key : Value) (old new : Option Fields)
    {fields : List String} {keys : String → String → List Value}
    (h : ∀ f ∈ fields, Listed m t f (keys f)) :
    ∃ ws, indexWrites Snapshot.store t key old new fields m = .ok ws
      ∧ ∀ f ∈ fields, ∀ p, AloneAt t fields f p →
        Content.Sets ws ((Space.index t f).named p)
          (entryText (keysAfter key (placeIn f old) (placeIn f new) p (keys f p)))
          (keysAfter key (placeIn f old) (placeIn f new) p (keys f p) = keys f p) := by
  induction fields with
  | nil => exact ⟨[], rfl, fun f hf => absurd hf List.not_mem_nil⟩
  | cons field fields ih =>
    obtain ⟨hhead, htail⟩ := List.forall_mem_cons.mp h
    obtain ⟨ws₁, hanswer₁, hsets₁⟩ := fieldWrites_answer key old new hhead
    obtain ⟨ws₂, hanswer₂, hsets₂⟩ := ih htail
    have hkeys₁ := key_fieldWrites hanswer₁
    have hkeys₂ := key_indexWrites hanswer₂
    refine ⟨ws₁ ++ ws₂, ?_, ?_⟩
    · unfold indexWrites
      rw [Snapshot.bind_apply, hanswer₁, ok_bind, Snapshot.bind_apply, hanswer₂]
      rfl
    · intro f hf p halone
      have halone' : AloneAt t fields f p := fun g hg => halone g (List.mem_cons_of_mem _ hg)
      by_cases heq : f = field
      · subst heq
        by_cases hlater : f ∈ fields
        · exact (hsets₁ p).append (hsets₂ f hlater p halone')
        · refine (hsets₁ p).append_other (fun w hw => ?_)
          obtain ⟨g, hg, v, hv, -⟩ := hkeys₂ w hw
          rw [hv]
          exact halone' g hg (fun he => hlater (he ▸ hg)) v
      · have hmem := List.mem_of_ne_of_mem heq hf
        refine Content.Sets.other_append (fun w hw => ?_) (hsets₂ f hmem p halone')
        obtain ⟨v, hv, -⟩ := hkeys₁ w hw
        rw [hv]
        exact halone field List.mem_cons_self (fun he => heq he.symm) v

end KeyValue

end QueryAlgebra
