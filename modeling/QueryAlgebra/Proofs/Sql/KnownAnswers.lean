import QueryAlgebra.Proofs.Sql.ColumnTests

/-!
# Where the readings of a filter agree

A filter that is known on a row is accepted exactly when it is true (`Part.agrees`). Two conditions
under which an accepted filter is known:

* `Part.known_of_notNull`: the row has no nulls in the columns that are tested.
* `Part.true_of_accepts`: the filter has no negation and does not test two columns for equality.
-/

namespace QueryAlgebra

namespace Sql

/-! ## 1. Known answers -/

section Known

variable {row : Fields}

theorem agrees_unlessNull (test : Value → Value → Bool) (a b : Value) :
    Truth.Agrees (unlessNull test a b) (test a b) := by
  unfold unlessNull
  split
  · exact Truth.agrees_none _
  · exact Truth.agrees_some _

theorem agrees_equals (v : Value) (s : Side) :
    Truth.Agrees (s.equals row v) (v.looseEq (s.on row)) := by
  cases s with
  | column name => exact agrees_unlessNull _ _ _
  | value w =>
    cases w with
    | null =>
      have hnull : v.looseEq .null = v.isNull := by cases v <;> simp [Value.looseEq, Value.isNull]
      rw [Side.equals, Side.on, hnull]
      exact Truth.agrees_some _
    | _ => exact agrees_unlessNull _ _ _

theorem agrees_differs (v : Value) (s : Side) :
    Truth.Agrees (s.differs row v) (!v.looseEq (s.on row)) := by
  cases s with
  | column name =>
    rw [Side.differs, Side.on]
    split
    · exact Truth.agrees_none _
    · exact Truth.agrees_some _
  | value w =>
    cases w with
    | null =>
      have hnull : v.looseEq .null = v.isNull := by cases v <;> simp [Value.looseEq, Value.isNull]
      rw [Side.differs, Side.on, hnull]
      exact Truth.agrees_some _
    | _ => exact Truth.agrees_some _

theorem ColumnTest.agrees (t : ColumnTest) : Truth.Agrees (t.truth row) (t.accepts row) := by
  obtain ⟨column, comparison, others⟩ := t
  cases comparison with
  | eq => exact Truth.Agrees.any (fun s _ => agrees_equals _ s)
  | ne => exact Truth.Agrees.any (fun s _ => agrees_differs _ s)
  | ordered relation => exact Truth.Agrees.all (fun p _ => agrees_unlessNull _ p.1 p.2)

theorem Part.truths_eq_map (parts : List Part) : Part.truths row parts = parts.map (Part.truth row) := by
  induction parts with
  | nil => rfl
  | cons p parts ih => rw [Part.truths, ih, List.map_cons]

theorem Part.answers_eq_map (parts : List Part) :
    Part.answers row parts = parts.map (Part.accepts row) := by
  induction parts with
  | nil => rfl
  | cons p parts ih => rw [Part.answers, ih, List.map_cons]

theorem Chain.truth_and (first : Chain) (parts : List Part) :
    (Chain.and first parts).truth row = Truth.all ((.chain first :: parts).map (Part.truth row)) := by
  rw [Chain.truth, Part.truths_eq_map, List.map_cons, Part.truth]

theorem Chain.truth_or (first : Chain) (parts : List Part) :
    (Chain.or first parts).truth row = Truth.any ((.chain first :: parts).map (Part.truth row)) := by
  rw [Chain.truth, Part.truths_eq_map, List.map_cons, Part.truth]

theorem Chain.accepts_and (first : Chain) (parts : List Part) :
    (Chain.and first parts).accepts row = (Part.chain first :: parts).all (Part.accepts row) := by
  rw [Chain.accepts, Part.answers_eq_map, List.all_map, List.all_cons, Part.accepts]
  rfl

theorem Chain.accepts_or (first : Chain) (parts : List Part) :
    (Chain.or first parts).accepts row = (Part.chain first :: parts).any (Part.accepts row) := by
  rw [Chain.accepts, Part.answers_eq_map, List.any_map, List.any_cons, Part.accepts]
  rfl

mutual

theorem Chain.agrees (c : Chain) : Truth.Agrees (c.truth row) (c.accepts row) := by
  cases c with
  | test t => exact t.agrees
  | and first parts =>
    rw [Chain.truth_and, Chain.accepts_and]
    refine Truth.Agrees.all (List.forall_mem_cons.mpr ⟨?_, Part.agrees_of_mem parts⟩)
    exact Chain.agrees first
  | or first parts =>
    rw [Chain.truth_or, Chain.accepts_or]
    refine Truth.Agrees.any (List.forall_mem_cons.mpr ⟨?_, Part.agrees_of_mem parts⟩)
    exact Chain.agrees first
  | not first => exact (Chain.agrees first).not

/-- **Where a filter is known, it is the evaluator's answer.** -/
theorem Part.agrees (p : Part) : Truth.Agrees (p.truth row) (p.accepts row) := by
  cases p with
  | const b => exact Truth.agrees_some b
  | chain c => exact Chain.agrees c

theorem Part.agrees_of_mem (parts : List Part) :
    ∀ p ∈ parts, Truth.Agrees (p.truth row) (p.accepts row) := by
  cases parts with
  | nil => exact fun p hp => by cases hp
  | cons p parts => exact List.forall_mem_cons.mpr ⟨Part.agrees p, Part.agrees_of_mem parts⟩

end

/-- A test that meets no null, but for the null value that it names itself. -/
def ColumnTest.NotNull (row : Fields) (t : ColumnTest) : Prop :=
  match t.comparison with
  | .eq | .ne => (columnOf row t.column).isNull = false ∧
      ∀ name, .column name ∈ t.others → (columnOf row name).isNull = false
  | .ordered _ => ∀ v ∈ t.run row, v.isNull = false

theorem mem_neighbours {α : Type} {l : List α} {p : α × α} (h : p ∈ neighbours l) :
    p.1 ∈ l ∧ p.2 ∈ l :=
  ⟨(List.of_mem_zip h).1, List.mem_of_mem_tail (List.of_mem_zip h).2⟩

theorem unlessNull_ne_none {test : Value → Value → Bool} {a b : Value} (ha : a.isNull = false)
    (hb : b.isNull = false) : unlessNull test a b ≠ none := by
  rw [unlessNull, ha, hb]
  exact Option.some_ne_none _

theorem ColumnTest.known_of_notNull {t : ColumnTest} (h : t.NotNull row) : t.truth row ≠ none := by
  obtain ⟨column, comparison, others⟩ := t
  cases comparison with
  | eq =>
    obtain ⟨hcolumn, hothers⟩ := h
    refine Truth.any_ne_none (List.forall_mem_map.mpr (fun s hs => ?_))
    cases s with
    | column name => exact unlessNull_ne_none hcolumn (hothers name hs)
    | value w =>
      cases w with
      | null => exact Option.some_ne_none _
      | _ => exact unlessNull_ne_none hcolumn rfl
  | ne =>
    obtain ⟨hcolumn, hothers⟩ := h
    refine Truth.any_ne_none (List.forall_mem_map.mpr (fun s hs => ?_))
    cases s with
    | column name =>
      rw [Side.differs, hcolumn]
      exact Option.some_ne_none _
    | value w => cases w <;> exact Option.some_ne_none _
  | ordered relation =>
    refine Truth.all_ne_none (List.forall_mem_map.mpr (fun p hp => ?_))
    exact unlessNull_ne_none (h _ (mem_neighbours hp).1) (h _ (mem_neighbours hp).2)

mutual

theorem Chain.known_of_notNull (c : Chain) (h : ∀ t ∈ c.tests, t.NotNull row) :
    c.truth row ≠ none := by
  cases c with
  | test t => exact ColumnTest.known_of_notNull (h t (List.mem_singleton_self t))
  | and first parts =>
    obtain ⟨hfirst, hparts⟩ := List.forall_mem_append.mp h
    exact Truth.all_ne_none (List.forall_mem_cons.mpr
      ⟨Chain.known_of_notNull first hfirst, Part.truths_known parts hparts⟩)
  | or first parts =>
    obtain ⟨hfirst, hparts⟩ := List.forall_mem_append.mp h
    exact Truth.any_ne_none (List.forall_mem_cons.mpr
      ⟨Chain.known_of_notNull first hfirst, Part.truths_known parts hparts⟩)
  | not first =>
    have hfirst := Chain.known_of_notNull first h
    rw [Chain.truth]
    cases ht : first.truth row with
    | none => exact absurd ht hfirst
    | some b => exact Option.some_ne_none _

/-- **A filter that meets no null is known.** -/
theorem Part.known_of_notNull (p : Part) (h : ∀ t ∈ p.tests, t.NotNull row) :
    p.truth row ≠ none := by
  cases p with
  | const b => exact Option.some_ne_none _
  | chain c => exact Chain.known_of_notNull c h

theorem Part.truths_known (parts : List Part) (h : ∀ t ∈ Part.allTests parts, t.NotNull row) :
    ∀ t ∈ Part.truths row parts, t ≠ none := by
  cases parts with
  | nil => exact fun t ht => by cases ht
  | cons p parts =>
    obtain ⟨hp, hparts⟩ := List.forall_mem_append.mp h
    exact List.forall_mem_cons.mpr ⟨Part.known_of_notNull p hp, Part.truths_known parts hparts⟩

end

/-- A test other than one for the equality of two columns. -/
def ColumnTest.OneColumn (t : ColumnTest) : Prop :=
  t.comparison = .eq → ∀ name, .column name ∉ t.others

mutual

/-- Whether nothing is negated. -/
def Chain.positive : Chain → Bool
  | .test _ => true
  | .and first parts => Chain.positive first && Part.allPositive parts
  | .or first parts => Chain.positive first && Part.allPositive parts
  | .not _ => false

/-- Whether nothing is negated in a part. -/
def Part.positive : Part → Bool
  | .const _ => true
  | .chain c => Chain.positive c

/-- Whether nothing is negated in parts. -/
def Part.allPositive : List Part → Bool
  | [] => true
  | p :: rest => Part.positive p && Part.allPositive rest

end

theorem isNull_eq_false_of_inOrder {relation : Relation} {a b : Value}
    (h : inOrder relation a b = true) : a.isNull = false ∧ b.isNull = false := by
  cases a <;> cases b <;> simp_all [inOrder, Value.compareLoose, Value.isNull]

theorem equals_eq_true {v : Value} {w : Value} (h : v.looseEq w = true) :
    (Side.value w).equals row v = some true := by
  have hnull : w.isNull = v.isNull := by
    by_contra hne
    rw [looseEq_eq_false (Ne.symm hne)] at h
    cases h
  cases w with
  | null => rw [Side.equals, ← hnull]; rfl
  | _ => exact (if_neg (by rw [← hnull]; exact Bool.false_ne_true)).trans (congrArg some h)

theorem differs_eq_true {v : Value} {s : Side} (h : v.looseEq (s.on row) = false) :
    s.differs row v = some true := by
  have hnull : v.looseEq .null = v.isNull := by cases v <;> simp [Value.looseEq, Value.isNull]
  cases s with
  | column name =>
    rw [Side.on] at h
    rw [Side.differs, if_neg ?_, h]
    · rfl
    · intro hboth
      obtain ⟨hv, hw⟩ := Bool.and_eq_true_iff.mp hboth
      cases v <;> cases hc : columnOf row name <;> simp_all [Value.isNull]
  | value w =>
    cases w with
    | null =>
      rw [Side.on, hnull] at h
      rw [Side.differs, h]
      rfl
    | _ => exact congrArg some (congrArg Bool.not h)

theorem ColumnTest.true_of_accepts {t : ColumnTest} (h : t.OneColumn)
    (haccepts : t.accepts row = true) : t.truth row = some true := by
  obtain ⟨column, comparison, others⟩ := t
  cases comparison with
  | eq =>
    obtain ⟨s, hs, heq⟩ := List.any_eq_true.mp haccepts
    cases s with
    | column name => exact absurd hs (h rfl name)
    | value w =>
      exact Truth.any_eq_true (List.mem_map.mpr ⟨.value w, hs, equals_eq_true heq⟩)
  | ne =>
    obtain ⟨s, hs, hne⟩ := List.any_eq_true.mp haccepts
    exact Truth.any_eq_true (List.mem_map.mpr ⟨s, hs, differs_eq_true (Bool.not_eq_true' _ ▸ hne)⟩)
  | ordered relation =>
    refine Truth.all_eq_true (List.forall_mem_map.mpr (fun p hp => ?_))
    have hp' := List.all_eq_true.mp haccepts p hp
    obtain ⟨h1, h2⟩ := isNull_eq_false_of_inOrder hp'
    rw [unlessNull, h1, h2, hp']
    rfl

mutual

theorem Chain.true_of_accepts (c : Chain) (hpos : c.positive = true)
    (h : ∀ t ∈ c.tests, t.OneColumn) (haccepts : c.accepts row = true) :
    c.truth row = some true := by
  cases c with
  | test t => exact ColumnTest.true_of_accepts (h t (List.mem_singleton_self t)) haccepts
  | and first parts =>
    obtain ⟨hfirst, hparts⟩ := List.forall_mem_append.mp h
    obtain ⟨hpos1, hpos2⟩ := Bool.and_eq_true_iff.mp hpos
    rw [Chain.accepts_and, List.all_cons, Bool.and_eq_true_iff, List.all_eq_true] at haccepts
    rw [Chain.truth_and]
    refine Truth.all_eq_true (List.forall_mem_map.mpr (List.forall_mem_cons.mpr ⟨?_, ?_⟩))
    · exact Chain.true_of_accepts first hpos1 hfirst haccepts.1
    · exact fun p hp => Part.true_of_mem parts hpos2 hparts p hp (haccepts.2 p hp)
  | or first parts =>
    obtain ⟨hfirst, hparts⟩ := List.forall_mem_append.mp h
    obtain ⟨hpos1, hpos2⟩ := Bool.and_eq_true_iff.mp hpos
    rw [Chain.accepts_or, List.any_cons, Bool.or_eq_true_iff, List.any_eq_true] at haccepts
    rw [Chain.truth_or]
    refine Truth.any_eq_true ?_
    rw [List.map_cons, List.mem_cons, List.mem_map]
    rcases haccepts with hc | ⟨p, hp, hacc⟩
    · exact Or.inl (Chain.true_of_accepts first hpos1 hfirst hc).symm
    · exact Or.inr ⟨p, hp, Part.true_of_mem parts hpos2 hparts p hp hacc⟩
  | not first => cases hpos

/-- **A filter without negation that tests no two columns for equality is true where the evaluator
    accepts.** -/
theorem Part.true_of_accepts (p : Part) (hpos : p.positive = true)
    (h : ∀ t ∈ p.tests, t.OneColumn) (haccepts : p.accepts row = true) :
    p.truth row = some true := by
  cases p with
  | const b => exact congrArg some haccepts
  | chain c => exact Chain.true_of_accepts c hpos h haccepts

theorem Part.true_of_mem (parts : List Part) (hpos : Part.allPositive parts = true)
    (h : ∀ t ∈ Part.allTests parts, t.OneColumn) :
    ∀ p ∈ parts, p.accepts row = true → p.truth row = some true := by
  cases parts with
  | nil => exact fun p hp => by cases hp
  | cons p parts =>
    obtain ⟨hp, hparts⟩ := List.forall_mem_append.mp h
    obtain ⟨hpos1, hpos2⟩ := Bool.and_eq_true_iff.mp hpos
    exact List.forall_mem_cons.mpr
      ⟨Part.true_of_accepts p hpos1 hp, Part.true_of_mem parts hpos2 hparts⟩

end

end Known

end Sql

end QueryAlgebra
