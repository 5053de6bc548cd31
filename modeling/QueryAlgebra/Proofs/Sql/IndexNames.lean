import QueryAlgebra.Sql.Table

/-!
# Names of indexes

The name of an index joins the name of its table and the name of its field with a separator that both
may hold. Different pairs join to one name exactly when they overlap: the name of one table goes on,
behind a separator, with what the other field begins with (`indexName_eq_iff`).
-/

namespace QueryAlgebra

namespace Sql

/-- **Two pairs of a table and a field overlap:** one table is named like the other, with a separator
    and some text behind it, and the field of the other begins with that text and a separator. -/
def Overlap (table field table' field' : String) : Prop :=
  ∃ middle, (table' = table ++ "_" ++ middle ∧ field = middle ++ "_" ++ field') ∨
    (table = table' ++ "_" ++ middle ∧ field' = middle ++ "_" ++ field)

/-- Joined texts are the same when their parts are, or when one separator stands in the other's part. -/
theorem join_eq_join_iff {α : Type} {c : α} {t f t' f' : List α} :
    t ++ c :: f = t' ++ c :: f' ↔
      (t = t' ∧ f = f') ∨ ∃ w, (t' = t ++ c :: w ∧ f = w ++ c :: f') ∨
        (t = t' ++ c :: w ∧ f' = w ++ c :: f) := by
  constructor
  · intro h
    rcases List.append_eq_append_iff.mp h with ⟨rest, ht, hf⟩ | ⟨rest, ht, hf⟩
    · cases rest with
      | nil => exact .inl ⟨by simpa using ht.symm, List.tail_eq_of_cons_eq hf⟩
      | cons x w =>
        obtain ⟨rfl, hw⟩ := List.cons.inj hf
        exact .inr ⟨w, .inl ⟨ht, hw⟩⟩
    · cases rest with
      | nil => exact .inl ⟨by simpa using ht, (List.tail_eq_of_cons_eq hf).symm⟩
      | cons x w =>
        obtain ⟨rfl, hw⟩ := List.cons.inj hf
        exact .inr ⟨w, .inr ⟨ht, hw⟩⟩
  · rintro (⟨rfl, rfl⟩ | ⟨w, ⟨rfl, rfl⟩ | ⟨rfl, rfl⟩⟩)
    · rfl
    · simp
    · simp

theorem toList_indexName (table field : String) : (indexName table field).toList =
    (table.toList ++ '_' :: field.toList) ++ "_idx".toList := by
  simp [indexName]

/-- **Pairs have one index name exactly when they are the same or overlap.** -/
theorem indexName_eq_iff {table field table' field' : String} :
    indexName table field = indexName table' field' ↔
      (table = table' ∧ field = field') ∨ Overlap table field table' field' := by
  have hlists : indexName table field = indexName table' field' ↔
      table.toList ++ '_' :: field.toList = table'.toList ++ '_' :: field'.toList := by
    rw [← String.toList_inj, toList_indexName, toList_indexName, List.append_left_inj]
  rw [hlists, join_eq_join_iff]
  simp only [String.toList_inj]
  refine or_congr_right ⟨fun ⟨w, hw⟩ => ⟨String.ofList w, ?_⟩, fun ⟨middle, h⟩ => ⟨middle.toList, ?_⟩⟩
  · simpa [← String.toList_inj] using hw
  · simpa [← String.toList_inj] using h

/-- The indexes of one table have names of their own. -/
theorem indexName_inj_right {table field field' : String} :
    indexName table field = indexName table field' ↔ field = field' := by
  simp [indexName, ← String.toList_inj]

/-- A table never has the name of one of its indexes. -/
theorem ne_indexName (table field : String) : table ≠ indexName table field := by
  intro h
  have hlength := congrArg String.length h
  simp only [indexName, String.length_append] at hlength
  have : "_idx".length = 4 := rfl
  omega

/-- Names of tables without a separator do not overlap, whatever the fields are named. -/
theorem not_overlap_of_tables {table field table' field' : String} (h : '_' ∉ table.toList)
    (h' : '_' ∉ table'.toList) : ¬ Overlap table field table' field' := by
  rintro ⟨middle, ⟨rfl, -⟩ | ⟨rfl, -⟩⟩
  · simp at h'
  · simp at h

/-- Names of fields without a separator do not overlap, whatever the tables are named. -/
theorem not_overlap_of_fields {table field table' field' : String} (h : '_' ∉ field.toList)
    (h' : '_' ∉ field'.toList) : ¬ Overlap table field table' field' := by
  rintro ⟨middle, ⟨-, rfl⟩ | ⟨-, rfl⟩⟩
  · simp at h
  · simp at h'

end Sql

end QueryAlgebra
