import QueryAlgebra.Proofs.KeyValue.Identity

/-!
# Operations keep a store consistent

Every change that operations make leads from a consistent store to a consistent one. What is written
must be readable again, and the primary keys must be among those that loose equality tells apart.
-/

namespace QueryAlgebra

namespace KeyValue

/-- The store is consistent with some tables. -/
def Sound (P : String → String → Prop) (m : Content) : Prop := ∃ T, Consistent P m T

/-- **Every change keeps a store consistent.** -/
theorem Sound.change {P : String → String → Prop} (hP : ∀ t, Apart (P t)) {m m' : Content}
    (h : Sound P m) (hchange : Change P m m') : Sound P m' := by
  obtain ⟨T, hT⟩ := h
  cases hchange with
  | @row t l key old new ws hl hold hfits hws =>
    obtain ⟨hmem, rfl⟩ := indexes_answer hT.identified hl
    have htable := hT.table t hmem
    rw [document_answer hT.identified hmem] at hold
    obtain rfl := Except.ok.inj hold
    have hrow := htable.row key.fingerprint
    obtain ⟨ws', hanswer, hwithin, hcommit⟩ := htable.commit hT.sorted (hT.plain t hmem) (hP t)
      (hfits.known hrow) (fun _ hdoc => hfits.row hrow hdoc)
    obtain rfl := Except.ok.inj (hanswer.symm.trans hws)
    exact ⟨_, hT.write hmem hwithin hcommit⟩
  | @addIndex t f l ws hl hf hprimary hnew hws =>
    obtain ⟨hmem, rfl⟩ := indexes_answer hT.identified hl
    obtain ⟨ws', hanswer, hwithin, hadded⟩ :=
      (hT.table t hmem).addIndex hT.sorted hf hprimary hnew
    obtain rfl := Except.ok.inj (hanswer.symm.trans hws)
    exact ⟨_, hT.write hmem hwithin hadded⟩
  | @removeIndex t f l hl hf =>
    obtain ⟨hmem, rfl⟩ := indexes_answer hT.identified hl
    obtain ⟨hwithin, hremoved⟩ :=
      (hT.table t hmem).removeIndex hT.sorted hf rfl
    exact ⟨_, hT.write hmem hwithin hremoved⟩
  | @create config t l names hnames ht hnew hdistinct hplain =>
    rw [tables_answer hT.identified] at hnames
    obtain rfl := Except.ok.inj hnames
    exact ⟨_, hT.create ht hnew hdistinct hplain⟩

theorem sound_empty (P : String → String → Prop) : Sound P [] :=
  ⟨⟨[], default, fun _ _ => none⟩, List.Pairwise.nil, fun _ ht => absurd ht List.not_mem_nil, rfl,
    fun _ ht => absurd ht List.not_mem_nil, fun _ _ _ _ _ _ _ => rfl, fun _ _ => rfl⟩

end KeyValue

end QueryAlgebra
