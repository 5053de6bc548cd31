import QueryAlgebra.Proofs.Value.Agreement

/-!
# Loose equality is an equivalence

Between values whose objects have distinct field names, loose equality and the equality of documents
are reflexive, symmetric and transitive (`equality_equivalence`).

The comparison of two objects is lopsided: it looks for the names of the first in the second. Since
the two are of one size and names are distinct, it amounts to a comparison name by name
(`looseEq_object_iff`), which has no first and no second. Everything else goes by induction over
values with distinct names (`Proper.induction`).
-/

namespace QueryAlgebra

namespace Value

/-! ## 1. Induction over values with distinct names -/

theorem properItems_of_mem {items : List Value} (h : ProperItems items) : ∀ v ∈ items, v.Proper := by
  induction items with
  | nil => exact fun v hv => absurd hv List.not_mem_nil
  | cons v items ih =>
    rw [ProperItems] at h
    exact List.forall_mem_cons.mpr ⟨h.1, ih h.2⟩

theorem Proper.item {items : List Value} (h : (Value.array items).Proper) :
    ∀ v ∈ items, v.Proper := by
  rw [Proper] at h
  exact properItems_of_mem h

theorem Proper.field {fields : Fields} (h : (Value.object fields).Proper) :
    ∀ f ∈ fields, f.2.Proper := by
  rw [Proper] at h
  exact properFields_of_mem h.2

theorem Proper.nodup {fields : Fields} (h : (Value.object fields).Proper) :
    (fields.map Prod.fst).Nodup := by
  rw [Proper] at h
  exact h.1

/-- Induction over the values whose objects have distinct field names. -/
@[elab_as_elim]
theorem Proper.induction {motive : (v : Value) → v.Proper → Prop} (null : ∀ h, motive .null h)
    (bool : ∀ b h, motive (.bool b) h) (number : ∀ n h, motive (.number n) h)
    (string : ∀ s h, motive (.string s) h)
    (array : ∀ items (h : (Value.array items).Proper),
      (∀ v (hv : v ∈ items), motive v (h.item v hv)) → motive (.array items) h)
    (object : ∀ fields (h : (Value.object fields).Proper),
      (∀ f (hf : f ∈ fields), motive f.2 (h.field f hf)) → motive (.object fields) h) :
    ∀ (v : Value) (h : v.Proper), motive v h
  | .null, h => null h
  | .bool b, h => bool b h
  | .number n, h => number n h
  | .string s, h => string s h
  | .array items, h => array items h fun v hv =>
    induction null bool number string array object v (h.item v hv)
  | .object fields, h => object fields h fun f hf =>
    induction null bool number string array object f.2 (h.field f hf)
termination_by v => sizeOf v
decreasing_by
  · have hlt := List.sizeOf_lt_of_mem hv
    simp only [Value.array.sizeOf_spec]
    omega
  · have hlt := List.sizeOf_lt_of_mem hf
    have hpair : sizeOf f = 1 + sizeOf f.1 + sizeOf f.2 := rfl
    simp only [Value.object.sizeOf_spec]
    omega

/-! ## 2. Arrays and objects -/

theorem looseEq_array_iff {xs ys : List Value} : (Value.array xs).looseEq (.array ys) = true ↔
    List.Forall₂ (fun x y => x.looseEq y = true) xs ys := by
  rw [looseEq]
  induction xs generalizing ys with
  | nil => cases ys <;> simp [looseEqItems]
  | cons x xs ih => cases ys <;> simp [looseEqItems, ih]

theorem looseEqFields_iff {fs gs : Fields} : looseEqFields fs gs = true ↔
    ∀ f ∈ fs, ∃ w, gs.get? f.1 = some w ∧ f.2.looseEq w = true := by
  induction fs with
  | nil => simp [looseEqFields]
  | cons f fs ih =>
    rw [looseEqFields, Bool.and_eq_true, ih, List.forall_mem_cons]
    cases hget : gs.get? f.1 <;> simp

/-- Two objects have the fields of one name, loosely equal, or neither has one. -/
def MatchedAt (fs gs : Fields) (name : String) : Prop :=
  Option.Rel (fun v w => looseEq v w = true) (fs.get? name) (gs.get? name)

theorem MatchedAt.isSome_eq {fs gs : Fields} {name : String} (h : MatchedAt fs gs name) :
    (fs.get? name).isSome = (gs.get? name).isSome := by
  unfold MatchedAt at h
  generalize fs.get? name = f, gs.get? name = g at h
  cases h <;> rfl

theorem MatchedAt.of_get? {fs gs : Fields} {name : String} {v : Value} (h : MatchedAt fs gs name)
    (hv : fs.get? name = some v) : ∃ w, gs.get? name = some w ∧ v.looseEq w = true := by
  unfold MatchedAt at h
  rw [hv] at h
  generalize gs.get? name = g at h
  cases h with
  | some h => exact ⟨_, rfl, h⟩

/-- **Objects are loosely equal when they match at every name.** -/
theorem looseEq_object_iff {fs gs : Fields} (hfs : (fs.map Prod.fst).Nodup)
    (hgs : (gs.map Prod.fst).Nodup) :
    (Value.object fs).looseEq (.object gs) = true ↔ ∀ name, MatchedAt fs gs name := by
  rw [looseEq, Bool.and_eq_true, beq_iff_eq, looseEqFields_iff]
  constructor
  · intro ⟨hlength, hall⟩ name
    have hfound : ∀ f ∈ fs, (gs.get? f.1).isSome := fun f hf => by
      obtain ⟨w, hw, -⟩ := hall f hf
      rw [hw]
      rfl
    have hsome := get?_isSome_of_subset hfs hlength hfound name
    unfold MatchedAt
    cases hf : fs.get? name with
    | none =>
      rw [hf] at hsome
      rw [Option.isSome_eq_false_iff.mp hsome.symm |> Option.isNone_iff_eq_none.mp]
      exact .none
    | some v =>
      obtain ⟨w, hw, hequal⟩ := hall _ (Fields.mem_of_get? hf)
      rw [hw]
      exact .some hequal
  · intro hmatched
    have hnames : ∀ name, name ∈ fs.map Prod.fst ↔ name ∈ gs.map Prod.fst := fun name => by
      rw [← Fields.isSome_get?, ← Fields.isSome_get?, (hmatched name).isSome_eq]
    have hperm := (List.perm_ext_iff_of_nodup hfs hgs).mpr hnames
    refine ⟨by simpa using hperm.length_eq, fun f hf => ?_⟩
    exact (hmatched f.1).of_get? (get?_of_mem_nodup hfs hf)

/-! ## 3. Turning round and composing -/

section Parts

variable {α : Type} {R : α → α → Prop}

theorem forall₂_symm {xs ys : List α} (hR : ∀ x ∈ xs, ∀ y ∈ ys, R x y → R y x)
    (h : List.Forall₂ R xs ys) : List.Forall₂ R ys xs := by
  induction h with
  | nil => exact .nil
  | cons hxy _ ih =>
    refine .cons (hR _ List.mem_cons_self _ List.mem_cons_self hxy) (ih fun x hx y hy => ?_)
    exact hR x (List.mem_cons_of_mem _ hx) y (List.mem_cons_of_mem _ hy)

theorem forall₂_trans {xs ys zs : List α}
    (hR : ∀ x ∈ xs, ∀ y ∈ ys, ∀ z ∈ zs, R x y → R y z → R x z) (h : List.Forall₂ R xs ys)
    (h' : List.Forall₂ R ys zs) : List.Forall₂ R xs zs := by
  induction h generalizing zs with
  | nil => exact h'
  | cons hxy _ ih =>
    cases h' with
    | cons hyz h' =>
      have hhead := hR _ List.mem_cons_self _ List.mem_cons_self _ List.mem_cons_self hxy hyz
      refine .cons hhead (ih (fun x hx y hy z hz => ?_) h')
      exact hR x (List.mem_cons_of_mem _ hx) y (List.mem_cons_of_mem _ hy) z
        (List.mem_cons_of_mem _ hz)

theorem rel_symm {f g : Option α} (hR : ∀ x, f = some x → ∀ y, g = some y → R x y → R y x)
    (h : Option.Rel R f g) : Option.Rel R g f := by
  cases h with
  | none => exact .none
  | some hxy => exact .some (hR _ rfl _ rfl hxy)

theorem rel_trans {f g k : Option α}
    (hR : ∀ x, f = some x → ∀ y, g = some y → ∀ z, k = some z → R x y → R y z → R x z)
    (h : Option.Rel R f g) (h' : Option.Rel R g k) : Option.Rel R f k := by
  cases h with
  | none => exact h'
  | some hxy =>
    cases h' with
    | some hyz => exact .some (hR _ rfl _ rfl _ rfl hxy hyz)

end Parts

/-! ## 4. The three laws -/

/-- **Loose equality is symmetric.** -/
theorem looseEq_symm {a b : Value} (ha : a.Proper) (hb : b.Proper) (h : a.looseEq b = true) :
    b.looseEq a = true := by
  induction a, ha using Proper.induction generalizing b with
  | null => cases b <;> simp [looseEq] at h ⊢
  | bool x => cases b <;> simp_all [looseEq]
  | string s => cases b <;> simp_all [looseEq]
  | number m =>
    cases b with
    | number n =>
      rw [looseEq, Number.same, Double.same_iff] at h ⊢
      exact h.symm
    | _ => simp [looseEq] at h
  | array xs hxs ih =>
    cases b with
    | array ys =>
      rw [looseEq_array_iff] at h ⊢
      exact forall₂_symm (fun x hx y hy hxy => ih x hx (hb.item y hy) hxy) h
    | _ => simp [looseEq] at h
  | object fs hfs ih =>
    cases b with
    | object gs =>
      rw [looseEq_object_iff hfs.nodup hb.nodup] at h
      rw [looseEq_object_iff hb.nodup hfs.nodup]
      intro name
      refine rel_symm (fun v hv w hw hvw => ?_) (h name)
      exact ih _ (Fields.mem_of_get? hv) (hb.field _ (Fields.mem_of_get? hw)) hvw
    | _ => simp [looseEq] at h

/-- **Loose equality is transitive.** -/
theorem looseEq_trans {a b c : Value} (ha : a.Proper) (hb : b.Proper) (hc : c.Proper)
    (h : a.looseEq b = true) (h' : b.looseEq c = true) : a.looseEq c = true := by
  induction a, ha using Proper.induction generalizing b c with
  | null => cases b <;> simp [looseEq] at h; exact h'
  | bool x => cases b <;> simp [looseEq] at h; rwa [h]
  | string s => cases b <;> simp [looseEq] at h; rwa [h]
  | number m =>
    cases b with
    | number n =>
      rw [looseEq, Number.same, Double.same_iff] at h
      rwa [number_looseEq c h]
    | _ => simp [looseEq] at h
  | array xs hxs ih =>
    cases b with
    | array ys =>
      cases c with
      | array zs =>
        rw [looseEq_array_iff] at h h' ⊢
        refine forall₂_trans (fun x hx y hy z hz hxy hyz => ?_) h h'
        exact ih x hx (hb.item y hy) (hc.item z hz) hxy hyz
      | _ => simp [looseEq] at h'
    | _ => simp [looseEq] at h
  | object fs hfs ih =>
    cases b with
    | object gs =>
      cases c with
      | object ks =>
        rw [looseEq_object_iff hfs.nodup hb.nodup] at h
        rw [looseEq_object_iff hb.nodup hc.nodup] at h'
        rw [looseEq_object_iff hfs.nodup hc.nodup]
        intro name
        refine rel_trans (fun v hv w hw u hu hvw hwu => ?_) (h name) (h' name)
        exact ih _ (Fields.mem_of_get? hv) (hb.field _ (Fields.mem_of_get? hw))
          (hc.field _ (Fields.mem_of_get? hu)) hvw hwu
      | _ => simp [looseEq] at h'
    | _ => simp [looseEq] at h

/-! ## 5. Documents -/

theorem Proper.withoutNulls {v : Value} (h : v.Proper) : v.withoutNulls.Proper := by
  cases v with
  | object fields =>
    rw [Value.withoutNulls, Proper]
    refine ⟨(List.filter_sublist.map Prod.fst).nodup h.nodup, properFields_of_forall fun f hf => ?_⟩
    exact h.field f (List.mem_of_mem_filter hf)
  | _ => exact h

theorem null_looseEq (v : Value) : looseEq .null v = v.isNull := by
  cases v <;> simp [looseEq, isNull]

theorem looseEq_null (v : Value) : v.looseEq .null = v.isNull := by
  cases v <;> simp [looseEq, isNull]

theorem eq_null_of_isNull {v : Value} (h : v.isNull = true) : v = .null := by
  cases v <;> first | rfl | cases h

/-- A field without its null is the value it stands for, unless that is null. -/
theorem filter_eq_ite (f : Option Value) : (f.filter fun v => !v.isNull)
    = if (f.getD .null).isNull then none else some (f.getD .null) := by
  cases f with
  | none => rfl
  | some v =>
    rw [Option.getD_some]
    cases hv : v.isNull with
    | true => rw [Option.filter_some_neg (by simp [hv]), if_pos rfl]
    | false => rw [Option.filter_some_pos (by simp [hv]), if_neg Bool.false_ne_true]

/-- Fields match without their nulls when they stand for loosely equal values. -/
theorem rel_filter_iff (f g : Option Value) :
    Option.Rel (fun v w => looseEq v w = true) (f.filter fun v => !v.isNull)
      (g.filter fun v => !v.isNull) ↔ (f.getD .null).looseEq (g.getD .null) = true := by
  rw [filter_eq_ite, filter_eq_ite]
  generalize f.getD .null = v, g.getD .null = w
  cases hv : v.isNull with
  | true =>
    rw [eq_null_of_isNull hv, null_looseEq]
    cases hw : w.isNull with
    | true => exact ⟨fun _ => rfl, fun _ => .none⟩
    | false => exact ⟨fun h => (by cases h), fun h => by cases h⟩
  | false =>
    cases hw : w.isNull with
    | true =>
      rw [eq_null_of_isNull hw, looseEq_null, hv]
      exact ⟨fun h => (by cases h), fun h => by cases h⟩
    | false => exact Option.rel_some_some

/-- **Objects are the same document when every field stands for the same:** an absent one for null. -/
theorem sameDocument_object_iff {fs gs : Fields} (hfs : (Value.object fs).Proper)
    (hgs : (Value.object gs).Proper) : (Value.object fs).sameDocument (.object gs) = true ↔
      ∀ name, (fs.valueOf name).looseEq (gs.valueOf name) = true := by
  have hfs' := hfs.withoutNulls.nodup
  have hgs' := hgs.withoutNulls.nodup
  refine (looseEq_object_iff hfs' hgs').trans (forall_congr' fun name => ?_)
  unfold MatchedAt
  rw [Fields.get?_withoutNulls hfs.nodup, Fields.get?_withoutNulls hgs.nodup, rel_filter_iff]
  rfl

/-! ## 6. Equivalences -/

/-- A value whose objects have distinct field names. -/
abbrev Distinct := {v : Value // v.Proper}

/-- An object in which, at any depth, field names are distinct. -/
abbrev Record := {fields : Fields // (Value.object fields).Proper}

/-- **Loose equality and the equality of documents are equivalences;** two objects are loosely equal
    when they match name by name, and one document when every field, null where it is absent, is
    loosely equal in both. -/
theorem equality_equivalence :
    Equivalence (fun a b : Distinct => a.1.looseEq b.1 = true) ∧
    Equivalence (fun a b : Distinct => a.1.sameDocument b.1 = true) ∧
    ∀ a b : Record,
      ((Value.object a.1).looseEq (.object b.1) = true ↔ ∀ name, MatchedAt a.1 b.1 name) ∧
      ((Value.object a.1).sameDocument (.object b.1) = true ↔
        ∀ name, (a.1.valueOf name).looseEq (b.1.valueOf name) = true) := by
  have hloose : Equivalence (fun a b : Distinct => a.1.looseEq b.1 = true) :=
    { refl := fun a => looseEq_self a.1 a.2
      symm := fun {a b} => looseEq_symm a.2 b.2
      trans := fun {a b c} => looseEq_trans a.2 b.2 c.2 }
  refine ⟨hloose, ?_, fun a b => ⟨?_, sameDocument_object_iff a.2 b.2⟩⟩
  · exact hloose.comap fun a : Distinct => ⟨a.1.withoutNulls, a.2.withoutNulls⟩
  · exact looseEq_object_iff a.2.nodup b.2.nodup

end Value

end QueryAlgebra
