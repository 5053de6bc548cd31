import QueryAlgebra.Proofs.Value.Documents

/-!
# Documents that hold the same data

Values *agree* when they are the same up to the order of fields and the form of numbers: `5` and `5.0`
agree, since they are one number, and documents agree when an absent field and a null one are taken
for the same.

Loose equality compares numbers as doubles, so it says less: an integer beyond 53 bits is loosely
equal to its neighbours. Apart from that it decides agreement (`agree_of_looseEq`): the values that
`sameDocument` takes for the same agree unless two of their numbers are one double and not one number
(`sameData_of_sameDocument`).
-/

namespace QueryAlgebra

/-- The value of a number, exactly, in quanta. -/
def Number.exact : Number → Int
  | .int i _ => i * Double.one
  | .double d => d.toInt

namespace Value

/-! ## 1. Agreement -/

/-- The values are the same up to the order of fields and the form of numbers. -/
inductive Agree : Value → Value → Prop
  | null : Agree .null .null
  | bool (b : Bool) : Agree (.bool b) (.bool b)
  | number {m n : Number} (h : m.exact = n.exact) : Agree (.number m) (.number n)
  | string (s : String) : Agree (.string s) (.string s)
  | array {xs ys : List Value} (h : List.Forall₂ Agree xs ys) : Agree (.array xs) (.array ys)
  | object {fs gs : Fields}
    (hnames : ∀ name, (Fields.get? fs name).isSome = (Fields.get? gs name).isSome)
    (h : ∀ name v w, Fields.get? fs name = some v → Fields.get? gs name = some w → Agree v w) :
    Agree (.object fs) (.object gs)

/-- A number that occurs in a value. -/
inductive HasNumber (n : Number) : Value → Prop
  | here : HasNumber n (.number n)
  | item {items : List Value} {v : Value} (hv : v ∈ items) (h : HasNumber n v) :
    HasNumber n (.array items)
  | field {fields : List (String × Value)} {f : String × Value} (hf : f ∈ fields)
    (h : HasNumber n f.2) : HasNumber n (.object fields)

/-- Numbers of two values that are one double are one number. -/
def NumbersApart (a b : Value) : Prop :=
  ∀ m n : Number, HasNumber m a → HasNumber n b → m.same n = true → m.exact = n.exact

mutual

theorem Agree.refl : ∀ v : Value, Agree v v
  | .null => .null
  | .bool b => .bool b
  | .number _ => .number rfl
  | .string s => .string s
  | .array items => .array (Agree.reflItems items)
  | .object fields => .object (fun _ => rfl) (fun _ v w hv hw => by
      obtain rfl := Option.some.inj (hv.symm.trans hw)
      exact Agree.reflFields fields _ (Fields.mem_of_get? hv))

theorem Agree.reflItems : ∀ items : List Value, List.Forall₂ Agree items items
  | [] => .nil
  | v :: rest => .cons (Agree.refl v) (Agree.reflItems rest)

theorem Agree.reflFields : ∀ (fields : List (String × Value)), ∀ f ∈ fields, Agree f.2 f.2
  | [], _, hf => absurd hf List.not_mem_nil
  | (_, v) :: rest, g, hg => by
    rcases List.mem_cons.mp hg with rfl | hg
    · exact Agree.refl v
    · exact Agree.reflFields rest g hg

end

/-! ## 2. Loose equality -/

theorem properFields_of_mem {fields : Fields} (h : ProperFields fields) :
    ∀ f ∈ fields, f.2.Proper := by
  induction fields with
  | nil => exact fun f hf => absurd hf List.not_mem_nil
  | cons f fields ih =>
    obtain ⟨name, v⟩ := f
    rw [ProperFields] at h
    exact List.forall_mem_cons.mpr ⟨h.1, ih h.2⟩

/-- Of two objects of one size, with distinct names, the one has the fields of the other when the
other has its. -/
theorem get?_isSome_of_subset {fs gs : Fields} (hfs : (fs.map Prod.fst).Nodup)
    (hlength : fs.length = gs.length) (hsub : ∀ f ∈ fs, (gs.get? f.1).isSome) (name : String) :
    (Fields.get? fs name).isSome = (gs.get? name).isSome := by
  have hnames : fs.map Prod.fst ⊆ gs.map Prod.fst := by
    intro n hn
    obtain ⟨f, hf, rfl⟩ := List.mem_map.mp hn
    obtain ⟨w, hw⟩ := Option.isSome_iff_exists.mp (hsub f hf)
    exact List.mem_map.mpr ⟨_, Fields.mem_of_get? hw, rfl⟩
  have hperm : (fs.map Prod.fst).Perm (gs.map Prod.fst) :=
    (List.subperm_of_subset hfs hnames).perm_of_length_le (by simp [hlength])
  rw [Bool.eq_iff_iff, Fields.isSome_get?, Fields.isSome_get?, hperm.mem_iff]

mutual

/-- **Loosely equal values agree,** unless two of their numbers are one double and not one number. -/
theorem agree_of_looseEq (a b : Value) (ha : a.Proper) (hn : NumbersApart a b)
    (h : a.looseEq b = true) : Agree a b := by
  cases a with
  | null =>
    cases b with
    | null => exact .null
    | _ => simp [looseEq] at h
  | bool a =>
    cases b with
    | bool b =>
      obtain rfl : a = b := by simpa [looseEq] using h
      exact .bool a
    | _ => simp [looseEq] at h
  | number m =>
    cases b with
    | number n => exact .number (hn m n .here .here (by simpa [looseEq] using h))
    | _ => simp [looseEq] at h
  | string a =>
    cases b with
    | string b =>
      obtain rfl : a = b := by simpa [looseEq] using h
      exact .string a
    | _ => simp [looseEq] at h
  | array xs =>
    cases b with
    | array ys =>
      rw [Proper] at ha
      rw [looseEq] at h
      refine .array (agree_items xs ys ha (fun x hx y hy m n hm hn' => ?_) h)
      exact hn m n (.item hx hm) (.item hy hn')
    | _ => simp [looseEq] at h
  | object fs =>
    cases b with
    | object gs =>
      rw [Proper] at ha
      rw [looseEq, Bool.and_eq_true, beq_iff_eq] at h
      have hfields := agree_fields fs gs ha.2
        (fun f hf g hg m n hm hn' => hn m n (.field hf hm) (.field hg hn')) h.2
      refine .object (get?_isSome_of_subset ha.1 h.1 (fun f hf => ?_)) (fun name v w hv hw => ?_)
      · obtain ⟨w, hw, -⟩ := hfields f hf
        rw [hw]
        rfl
      · obtain ⟨w', hw', hagree⟩ := hfields _ (Fields.mem_of_get? hv)
        obtain rfl := Option.some.inj (hw.symm.trans hw')
        exact hagree
    | _ => simp [looseEq] at h

theorem agree_items (xs ys : List Value) (hxs : ProperItems xs)
    (hn : ∀ x ∈ xs, ∀ y ∈ ys, NumbersApart x y) (h : looseEqItems xs ys = true) :
    List.Forall₂ Agree xs ys := by
  cases xs with
  | nil =>
    cases ys with
    | nil => exact .nil
    | cons y ys => simp [looseEqItems] at h
  | cons x xs =>
    cases ys with
    | nil => simp [looseEqItems] at h
    | cons y ys =>
      rw [ProperItems] at hxs
      rw [looseEqItems, Bool.and_eq_true] at h
      have hrest := fun x hx y hy => hn x (List.mem_cons_of_mem _ hx) y (List.mem_cons_of_mem _ hy)
      exact .cons (agree_of_looseEq x y hxs.1 (hn x List.mem_cons_self y List.mem_cons_self) h.1)
        (agree_items xs ys hxs.2 hrest h.2)

theorem agree_fields (fs gs : Fields) (hfs : ProperFields fs)
    (hn : ∀ f ∈ fs, ∀ g ∈ gs, NumbersApart f.2 g.2) (h : looseEqFields fs gs = true) :
    ∀ f ∈ fs, ∃ w, gs.get? f.1 = some w ∧ Agree f.2 w := by
  cases fs with
  | nil => exact fun f hf => absurd hf List.not_mem_nil
  | cons f fs =>
    obtain ⟨name, v⟩ := f
    rw [ProperFields] at hfs
    rw [looseEqFields, Bool.and_eq_true] at h
    have hrest := agree_fields fs gs hfs.2 (fun f hf => hn f (List.mem_cons_of_mem _ hf)) h.2
    refine List.forall_mem_cons.mpr ⟨?_, hrest⟩
    cases hw : gs.get? name with
    | none =>
      rw [hw] at h
      exact absurd h.1 Bool.false_ne_true
    | some w =>
      rw [hw] at h
      have hnumbers := hn _ List.mem_cons_self _ (Fields.mem_of_get? hw)
      exact ⟨w, rfl, agree_of_looseEq v w hfs.1 hnumbers h.1⟩

end

end Value

/-! ## 3. Documents -/

namespace Fields

/-- A field of a document; an absent one is null. -/
def valueOf (fields : Fields) (name : String) : Value := (fields.get? name).getD .null

/-- Two documents hold the same data: field by field they agree. -/
def SameData (a b : Fields) : Prop := ∀ name, Value.Agree (a.valueOf name) (b.valueOf name)

theorem SameData.of_get? {a b : Fields} (h : ∀ name, a.get? name = b.get? name) : SameData a b := by
  intro name
  unfold valueOf
  rw [h name]
  exact .refl _

theorem SameData.congr_right {a b c : Fields} (h : SameData a b)
    (hc : ∀ name, b.get? name = c.get? name) : SameData a c := by
  intro name
  have hname := h name
  unfold valueOf at hname ⊢
  rwa [hc name] at hname

theorem get?_withoutNulls {fields : Fields} (h : (fields.map Prod.fst).Nodup) (name : String) :
    Fields.get? (fields.filter (fun f => !f.2.isNull)) name
      = (fields.get? name).filter (fun v => !v.isNull) := by
  induction fields with
  | nil => rfl
  | cons f fields ih =>
    obtain ⟨n, v⟩ := f
    obtain ⟨hhead, htail⟩ := List.nodup_cons.mp h
    have hfilter : List.filter (fun f => !f.2.isNull) ((n, v) :: fields)
        = if v.isNull then fields.filter (fun f => !f.2.isNull)
          else (n, v) :: fields.filter (fun f => !f.2.isNull) := by
      rw [List.filter_cons]
      cases v.isNull <;> rfl
    rw [hfilter]
    by_cases hname : n = name
    · subst hname
      have hfound : get? ((n, v) :: fields) n = some v := if_pos rfl
      rw [hfound]
      cases hnull : v.isNull with
      | false =>
        rw [if_neg Bool.false_ne_true, Option.filter_some_pos (by simp [hnull])]
        exact if_pos rfl
      | true =>
        rw [if_pos rfl, ih htail, get?_eq_none_of_not_mem hhead,
          Option.filter_some_neg (by simp [hnull])]
        rfl
    · have hnext : get? ((n, v) :: fields) name = get? fields name := if_neg hname
      rw [hnext, ← ih htail]
      cases v.isNull with
      | false => exact if_neg hname
      | true => rfl

theorem valueOf_withoutNulls {fields : Fields} (h : (fields.map Prod.fst).Nodup) (name : String) :
    valueOf (fields.filter (fun f => !f.2.isNull)) name = fields.valueOf name := by
  unfold valueOf
  rw [get?_withoutNulls h]
  cases hv : fields.get? name with
  | none => rfl
  | some v => cases v <;> rfl

end Fields

/-- The numbers of a document occur in every document with its fields. -/
theorem Value.HasNumber.of_get? {n : Number} {a b : Fields} (h : HasNumber n (.object a))
    (ha : (a.map Prod.fst).Nodup) (hget : ∀ name, a.get? name = b.get? name) :
    HasNumber n (.object b) := by
  cases h with
  | @field _ f hf hn =>
    have hfound : b.get? f.1 = some f.2 := hget f.1 ▸ get?_of_mem_nodup ha hf
    exact .field (Fields.mem_of_get? hfound) hn

theorem Value.Agree.valueOf {fs gs : Fields} (h : Agree (.object fs) (.object gs)) (name : String) :
    Agree (fs.valueOf name) (gs.valueOf name) := by
  cases h with
  | object hnames h =>
    unfold Fields.valueOf
    have hname := hnames name
    cases hf : fs.get? name with
    | none =>
      cases hg : gs.get? name with
      | none => exact .null
      | some w =>
        rw [hf, hg] at hname
        cases hname
    | some v =>
      cases hg : gs.get? name with
      | none =>
        rw [hf, hg] at hname
        cases hname
      | some w => exact h name v w hf hg

/-- **Documents that a table takes for the same hold the same data,** unless two of their numbers are
one double and not one number. -/
theorem sameData_of_sameDocument {a b : Fields} (ha : (Value.object a).Proper)
    (hb : (Value.object b).Proper) (hnumbers : Value.NumbersApart (.object a) (.object b))
    (h : (Value.object a).sameDocument (.object b) = true) : a.SameData b := by
  have hsub : ∀ {fields : Fields} {n : Number},
      Value.HasNumber n (.object (fields.filter (fun f => !f.2.isNull))) →
      Value.HasNumber n (.object fields) := by
    intro fields n hn
    cases hn with
    | field hf hn => exact .field (List.mem_of_mem_filter hf) hn
  rw [Value.Proper] at ha hb
  have hproper : (Value.object (a.filter (fun f => !f.2.isNull))).Proper := by
    rw [Value.Proper]
    refine ⟨(List.filter_sublist.map Prod.fst).nodup ha.1, Value.properFields_of_forall ?_⟩
    exact fun f hf => Value.properFields_of_mem ha.2 f (List.mem_of_mem_filter hf)
  have hagree := Value.agree_of_looseEq _ _ hproper
    (fun m n hm hn => hnumbers m n (hsub hm) (hsub hn)) h
  intro name
  rw [← Fields.valueOf_withoutNulls ha.1, ← Fields.valueOf_withoutNulls hb.1]
  exact hagree.valueOf name

end QueryAlgebra
