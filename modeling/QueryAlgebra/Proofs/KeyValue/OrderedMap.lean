import Mathlib.Data.Char
import Mathlib.Data.List.Lex
import Mathlib.Order.Lattice
import QueryAlgebra.KeyValue.OrderedMap

/-!
# Laws of ordered maps

Writing, removing and reading single keys, and the order that both keep, over any ordered alphabet.
What stands under a word is exactly the entries whose keys extend it (`under_eq_filter`): in the order
of words the extensions of one word follow each other.
-/

namespace QueryAlgebra

namespace OrderedMap

variable {κ ν : Type} [LinearOrder κ] {m : OrderedMap κ ν} {k k' : List κ} {v w : ν}

/-- The keys ascend. -/
def Ascending {κ ν : Type} [LT κ] (m : OrderedMap κ ν) : Prop := m.Pairwise (fun e f => e.1 < f.1)

/-- The keys ascend, where they are texts. -/
def Sorted (m : OrderedMap Char ν) : Prop := m.Pairwise (fun e f => e.1 < f.1)

/-! ## 1. Single keys -/

theorem get?_put (m : OrderedMap κ ν) (k k' : List κ) (v : ν) :
    (m.put k v).get? k' = if k = k' then some v else m.get? k' := by
  induction m with
  | nil => simp [put, get?]
  | cons e m ih =>
    obtain ⟨k₀, v₀⟩ := e
    unfold put
    split
    · next h =>
      subst h
      simp only [get?]
      split <;> rfl
    · next hne =>
      split
      · simp only [get?]
      · simp only [get?, ih]
        split
        · next h =>
          subst h
          rw [if_neg (fun h => hne h.symm)]
        · rfl

theorem mem_of_get? (h : m.get? k = some v) : (k, v) ∈ m := by
  induction m with
  | nil => cases h
  | cons e m ih =>
    obtain ⟨k₀, v₀⟩ := e
    simp only [get?] at h
    split at h
    · next heq =>
      subst heq
      cases h
      exact List.mem_cons_self
    · exact List.mem_cons_of_mem _ (ih h)

theorem get?_of_mem (hs : Ascending m) (h : (k, v) ∈ m) : m.get? k = some v := by
  induction m with
  | nil => cases h
  | cons e m ih =>
    obtain ⟨k₀, v₀⟩ := e
    obtain ⟨hhead, htail⟩ := List.pairwise_cons.mp hs
    simp only [get?]
    rcases List.mem_cons.mp h with heq | hmem
    · cases heq
      rw [if_pos rfl]
    · rw [if_neg (ne_of_lt (hhead _ hmem)), ih htail hmem]

theorem mem_iff_get? (hs : Ascending m) {e : List κ × ν} : e ∈ m ↔ m.get? e.1 = some e.2 :=
  ⟨get?_of_mem hs, mem_of_get?⟩

/-- Maps with the same entries are the same. -/
theorem eq_of_mem_iff {m' : OrderedMap κ ν} (hs : Ascending m) (hs' : Ascending m')
    (h : ∀ e, e ∈ m ↔ e ∈ m') : m = m' := by
  have hnodup : ∀ {m : OrderedMap κ ν}, Ascending m → m.Nodup := by
    intro m hs
    refine hs.imp fun hlt heq => ?_
    subst heq
    exact lt_irrefl _ hlt
  refine List.Perm.eq_of_pairwise (fun e f _ _ hlt hgt => absurd hlt hgt.not_gt) hs hs' ?_
  exact (List.perm_ext_iff_of_nodup (hnodup hs) (hnodup hs')).mpr h

theorem get?_eq_none (h : ∀ e ∈ m, e.1 ≠ k) : m.get? k = none := by
  cases hg : m.get? k with
  | none => rfl
  | some v => exact absurd rfl (h _ (mem_of_get? hg))

theorem get?_del (hs : Ascending m) (k k' : List κ) :
    (m.del k).get? k' = if k = k' then none else m.get? k' := by
  induction m with
  | nil => simp [del, get?]
  | cons e m ih =>
    obtain ⟨k₀, v₀⟩ := e
    obtain ⟨hhead, htail⟩ := List.pairwise_cons.mp hs
    unfold del
    split
    · next h =>
      subst h
      by_cases hk : k₀ = k'
      · subst hk
        rw [if_pos rfl]
        exact get?_eq_none (fun e he => (ne_of_lt (hhead e he)).symm)
      · rw [if_neg hk, get?, if_neg hk]
    · next hne =>
      simp only [get?, ih htail]
      split
      · next h =>
        subst h
        rw [if_neg (fun h => hne h.symm)]
      · rfl

theorem mem_put {e : List κ × ν} (h : e ∈ m.put k v) : e = (k, v) ∨ e ∈ m := by
  induction m with
  | nil => exact Or.inl (List.mem_singleton.mp h)
  | cons e₀ m ih =>
    obtain ⟨k₀, v₀⟩ := e₀
    unfold put at h
    split at h
    · rcases List.mem_cons.mp h with h | h
      · exact Or.inl h
      · exact Or.inr (List.mem_cons_of_mem _ h)
    · split at h
      · exact List.mem_cons.mp h
      · rcases List.mem_cons.mp h with h | h
        · exact Or.inr (h ▸ List.mem_cons_self)
        · exact (ih h).imp_right (List.mem_cons_of_mem _)

theorem sorted_put (hs : Ascending m) (k : List κ) (v : ν) : Ascending (m.put k v) := by
  induction m with
  | nil => exact List.pairwise_singleton _ _
  | cons e m ih =>
    obtain ⟨k₀, v₀⟩ := e
    obtain ⟨hhead, htail⟩ := List.pairwise_cons.mp hs
    unfold put
    split
    · next h =>
      subst h
      exact List.pairwise_cons.mpr ⟨hhead, htail⟩
    · next hne =>
      split
      · next hlt =>
        refine List.pairwise_cons.mpr ⟨fun e he => ?_, hs⟩
        rcases List.mem_cons.mp he with rfl | he
        · exact hlt
        · exact lt_trans hlt (hhead e he)
      · next hge =>
        have hgt : k₀ < k := lt_of_le_of_ne (not_lt.mp hge) hne
        refine List.pairwise_cons.mpr ⟨fun e he => ?_, ih htail⟩
        rcases mem_put he with rfl | he
        · exact hgt
        · exact hhead e he

theorem del_sublist (m : OrderedMap κ ν) (k : List κ) : (m.del k).Sublist m := by
  induction m with
  | nil => exact List.Sublist.slnil
  | cons e m ih =>
    unfold del
    split
    · exact List.sublist_cons_self _ _
    · exact ih.cons_cons e

theorem sorted_del (hs : Ascending m) (k : List κ) : Ascending (m.del k) :=
  List.Pairwise.sublist (del_sublist m k) hs

/-! ## 2. Extensions of a word -/

/-- A word does not come after its extensions. -/
theorem not_lt_of_prefix {word key : List κ} (h : word <+: key) : ¬key < word := by
  induction word generalizing key with
  | nil => exact List.not_lt_nil key
  | cons c word ih =>
    obtain ⟨rest, rfl⟩ := h
    rw [List.cons_append, List.cons_lt_cons_iff]
    rintro (hlt | ⟨-, hlt⟩)
    · exact lt_irrefl c hlt
    · exact ih (List.prefix_append word rest) hlt

/-- What lies between a word and one of its extensions extends it too. -/
theorem prefix_of_lt {word key key' : List κ} (hge : ¬key < word) (hlt : key < key')
    (h : word <+: key') : word <+: key := by
  induction word generalizing key key' with
  | nil => exact List.nil_prefix
  | cons c word ih =>
    obtain ⟨rest, rfl⟩ := h
    cases key with
    | nil => exact absurd (List.nil_lt_cons c word) hge
    | cons d key =>
      rw [List.cons_lt_cons_iff] at hge
      rw [List.cons_append, List.cons_lt_cons_iff] at hlt
      rcases hlt with hdc | ⟨rfl, hlt⟩
      · exact absurd (Or.inl hdc) hge
      · exact List.cons_prefix_cons.mpr ⟨rfl,
          ih (fun h => hge (Or.inr ⟨rfl, h⟩)) hlt (List.prefix_append word rest)⟩

/-- Past the entries before a word, those that extend it come first. -/
theorem takeWhile_eq_filter {word : List κ} (hs : Ascending m) (hge : ∀ e ∈ m, ¬e.1 < word) :
    m.takeWhile (fun e => word.isPrefixOf e.1) = m.filter (fun e => word.isPrefixOf e.1) := by
  induction m with
  | nil => rfl
  | cons e m ih =>
    obtain ⟨hhead, htail⟩ := List.pairwise_cons.mp hs
    by_cases hp : word.isPrefixOf e.1 = true
    · rw [List.takeWhile_cons, List.filter_cons, if_pos hp, if_pos hp,
        ih htail (fun f hf => hge f (List.mem_cons_of_mem e hf))]
    · rw [List.takeWhile_cons, List.filter_cons, if_neg hp, if_neg hp, eq_comm,
        List.filter_eq_nil_iff]
      intro f hf hpf
      refine hp (List.isPrefixOf_iff_prefix.mpr ?_)
      exact prefix_of_lt (hge e List.mem_cons_self) (hhead f hf) (List.isPrefixOf_iff_prefix.mp hpf)

/-- **What stands under a word is what extends it.** -/
theorem under_eq_filter (hs : Ascending m) (word : List κ) :
    m.under word = m.filter (fun e => word.isPrefixOf e.1) := by
  unfold under
  induction m with
  | nil => rfl
  | cons e m ih =>
    obtain ⟨hhead, htail⟩ := List.pairwise_cons.mp hs
    by_cases hlt : e.1 < word
    · have hp : ¬word.isPrefixOf e.1 = true :=
        fun hp => not_lt_of_prefix (List.isPrefixOf_iff_prefix.mp hp) hlt
      rw [List.dropWhile_cons, if_pos (decide_eq_true hlt), List.filter_cons, if_neg hp]
      exact ih htail
    · rw [List.dropWhile_cons, if_neg (by simpa using hlt)]
      refine takeWhile_eq_filter hs (fun f hf => ?_)
      rcases List.mem_cons.mp hf with rfl | hf
      · exact hlt
      · exact fun h => hlt (lt_trans (hhead f hf) h)

theorem mem_under {word : List κ} (hs : Ascending m) {e : List κ × ν} :
    e ∈ m.under word ↔ e ∈ m ∧ word <+: e.1 := by
  rw [under_eq_filter hs, List.mem_filter, List.isPrefixOf_iff_prefix]

theorem sorted_under (hs : Ascending m) (word : List κ) : Ascending (m.under word) := by
  rw [under_eq_filter hs]
  exact hs.filter _

end OrderedMap

end QueryAlgebra
