import QueryAlgebra.Proofs.Outcome
import QueryAlgebra.Proofs.Sql.ColumnTests
import QueryAlgebra.Sql.Filter

/-!
# What filters of column tests compile to

Every filter of column tests compiles, and on a database its condition means what the filter means
when a test of a null is unknown.

* `Part.compile_eq`: a filter compiles to `Part.condition`.
* `value_against`: an expression that is read as the other side needs it keeps its value.
* `ColumnTest.truth_condition`, `Chain.truth_condition`, `Part.truth_condition`: the meaning of the
  condition, for a test and from there by induction.
-/

namespace QueryAlgebra

namespace Sql

/-! ## 1. Compilation -/

section Compilation

/-- The term that a side is compiled to. -/
def Side.term : Side → Term
  | .value v => .ofValue v
  | .column name => .expression (.column name) false

/-- The condition that a test is compiled to. -/
def ColumnTest.condition (t : ColumnTest) : Condition :=
  let column := Term.expression (.column t.column) false
  match t.comparison with
  | .eq => .any (t.others.map (fun s => equalityTest column false s.term))
  | .ne => .any (t.others.map (fun s => equalityTest column true s.term))
  | .ordered relation => .all (chainTests relation (column :: t.others.map Side.term))

mutual

/-- The condition that a chain is compiled to. -/
def Chain.condition : Chain → Condition
  | .test t => t.condition
  | .and first parts => .all (Chain.condition first :: Part.conditions parts)
  | .or first parts => .any (Chain.condition first :: Part.conditions parts)
  | .not first => (Chain.condition first).not

/-- The condition that a part is compiled to. -/
def Part.condition : Part → Condition
  | .const b => .const b
  | .chain c => Chain.condition c

/-- The conditions that parts are compiled to. -/
def Part.conditions : List Part → List Condition
  | [] => []
  | p :: rest => Part.condition p :: Part.conditions rest

end

variable {scope : Scope}

theorem compileQueue_append (c : Compiled) (xs ys : List (Entry (Except Error))) :
    compileQueue scope c (xs ++ ys)
      = (do compileQueue scope (← compileQueue scope c xs) ys) := by
  induction xs generalizing c with
  | nil => simp [compileQueue]
  | cons entry xs ih =>
    rw [List.cons_append, compileQueue, compileQueue, bind_assoc]
    congr 1
    funext c'
    exact ih c'

theorem compileTerm_operand (s : Side) :
    compileTerm (M := Except Error) (.row :: scope) s.operand = .ok s.term := by
  cases s with
  | value v => rw [Side.operand, compileTerm]; rfl
  | column name =>
    simp [Side.operand, Side.term, compileTerm, Source.isRow, compileQueue, compileEntry, plainValue,
      isRowOperand, Operand.resolve, fieldNameOf, Compiled.selectField, Compiled.toTerm]

theorem compileTerms_operands (sides : List Side) :
    compileTerms (M := Except Error) (.row :: scope) (sides.map Side.operand)
      = .ok (sides.map Side.term) := by
  induction sides with
  | nil => rw [List.map_nil, compileTerms]; rfl
  | cons s sides ih => simp [compileTerms, compileTerm_operand, ih]

theorem compileQueue_test (t : ColumnTest) :
    compileQueue (M := Except Error) (.row :: scope) {} t.entries
      = .ok { condition := some t.condition } := by
  obtain ⟨column, comparison, others⟩ := t
  cases comparison <;>
    simp [ColumnTest.entries, ColumnTest.condition, Comparison.entry, compileQueue, compileEntry,
      plainValue, isRowOperand, Operand.resolve, fieldNameOf, Compiled.selectField,
      Compiled.takeColumn, compileTerms_operands, Compiled.emit, Function.comp_def]

mutual

/-- **A chain compiles to its condition,** and nothing is left waiting. -/
theorem Chain.compileQueue_entries (c : Chain) :
    compileQueue (M := Except Error) (.row :: scope) {} c.entries
      = .ok { condition := some c.condition } := by
  cases c with
  | test t => exact compileQueue_test t
  | and first parts =>
    rw [Chain.entries, compileQueue_append, Chain.compileQueue_entries first, ok_bind]
    simp [compileQueue, compileEntry, Compiled.flush, Part.compileConditions_operands parts,
      Chain.condition]
  | or first parts =>
    rw [Chain.entries, compileQueue_append, Chain.compileQueue_entries first, ok_bind]
    simp [compileQueue, compileEntry, Compiled.flush, Part.compileConditions_operands parts,
      Chain.condition]
  | not first =>
    rw [Chain.entries, compileQueue_append, Chain.compileQueue_entries first, ok_bind]
    simp [compileQueue, compileEntry, Compiled.flush, Chain.condition]

theorem Part.compileCondition_operand (p : Part) :
    compileCondition (M := Except Error) (.row :: scope) p.operand = .ok p.condition := by
  cases p with
  | const b => simp [Part.operand, compileCondition, Part.condition, Value.truthy, pure, Except.pure]
  | chain c =>
    simp [Part.operand, compileCondition, Source.isRow, Chain.compileQueue_entries c,
      Compiled.toCondition, Compiled.flush, Part.condition]

theorem Part.compileConditions_operands (parts : List Part) :
    compileConditions (M := Except Error) (.row :: scope) (Part.operands parts)
      = .ok (Part.conditions parts) := by
  cases parts with
  | nil => rw [Part.operands, compileConditions, Part.conditions]; rfl
  | cons p parts =>
    simp [Part.operands, compileConditions, Part.conditions, Part.compileCondition_operand p,
      Part.compileConditions_operands parts]

end

/-- **Every filter of this kind compiles.** -/
theorem Part.compile_eq (p : Part) :
    compilePredicate (M := Except Error) scope (.test p.operand) = .ok p.condition :=
  Part.compileCondition_operand p

end Compilation

/-! ## 2. The meaning of the condition -/

section Meaning

variable {e : Engine} {row : Fields}

theorem Matching.symm {a b : Value} (h : Matching a b) : Matching b a := by
  rcases h with h | h | ⟨m, n, ha, hb⟩ | ⟨s, t, ha, hb⟩
  · exact Or.inr (Or.inl h)
  · exact Or.inl h
  · exact Or.inr (Or.inr (Or.inl ⟨n, m, hb, ha⟩))
  · exact Or.inr (Or.inr (Or.inr ⟨t, s, hb, ha⟩))

/-- Tests that agree on numbers and on texts agree on what can be compared. -/
theorem unlessNull_congr {f g : Value → Value → Bool} {a b : Value} (h : Matching a b)
    (hnumber : ∀ m n, f (.number m) (.number n) = g (.number m) (.number n))
    (hstring : ∀ s t, f (.string s) (.string t) = g (.string s) (.string t)) :
    unlessNull f a b = unlessNull g a b := by
  rcases h with rfl | rfl | ⟨m, n, rfl, rfl⟩ | ⟨s, t, rfl, rfl⟩
  · rfl
  · simp [unlessNull, Value.isNull]
  · simp only [unlessNull, hnumber]
  · simp only [unlessNull, hstring]

/-- A database compares what can be compared as the evaluator does. -/
theorem unlessNull_equal (std : e.Standard) {a b : Value} (h : Matching a b) :
    unlessNull e.equal a b = unlessNull Value.looseEq a b := by
  refine unlessNull_congr h (fun m n => ?_) (fun s t => ?_)
  · rw [std.equal_number, Value.looseEq]
  · rw [std.equal_string, Value.looseEq]

theorem unlessNull_related (std : e.Standard) (relation : Relation) {a b : Value}
    (h : Matching a b) :
    unlessNull (e.related relation) a b = unlessNull (inOrder relation) a b := by
  refine unlessNull_congr h (fun m n => ?_) (fun s t => ?_)
  · rw [std.related_number, inOrder, Value.compareLoose]
  · rw [std.related_string, inOrder, Value.compareLoose]

theorem value_plain_ofValue (v : Value) : (Term.ofValue v).plain.value e row = v := by
  cases v <;> simp [Term.ofValue, Term.plain, Expression.value]

/-- **Reading a side as the other one needs it does not change its value.** -/
theorem value_against (std : e.Standard) {a b : Side} (h : Matching (a.on row) (b.on row)) :
    (a.term.against b.term).value e row = a.on row := by
  cases a with
  | value v =>
    have hplain : (Term.ofValue v).plain.value e row = v := value_plain_ofValue v
    cases v <;> simpa [Side.term, Term.ofValue, Term.against, Side.on] using hplain
  | column name =>
    have hcolumn : (Expression.column name).value e row = columnOf row name := by
      rw [Expression.value]
    cases b with
    | column other => simpa [Side.term, Term.against, Term.plain, Side.on] using hcolumn
    | value w =>
      simp only [Side.on] at h
      cases w with
      | number n =>
        rw [Side.term, Side.term, Term.ofValue, Term.against, Expression.value, hcolumn, Side.on]
        rcases h with h | h | ⟨m, k, h, -⟩ | ⟨s, t, -, h⟩
        · rw [h, std.numeric_null]
        · cases h
        · rw [h, std.numeric_number]
        · cases h
        · intro h
          cases h
      | string t =>
        rw [Side.term, Side.term, Term.ofValue, Term.against, Expression.value, hcolumn, Side.on]
        rcases h with h | h | ⟨m, k, -, h⟩ | ⟨s, t, h, -⟩
        · rw [h, std.text_null]
        · cases h
        · cases h
        · rw [h, std.text_string]
        · intro h
          cases h
      | null => simpa [Side.term, Term.ofValue, Term.against, Term.plain, Side.on] using hcolumn
      | bool b => simpa [Side.term, Term.ofValue, Term.against, Term.plain, Side.on] using hcolumn
      | array items =>
        simpa [Side.term, Term.ofValue, Term.against, Term.plain, Side.on] using hcolumn
      | object fields =>
        simpa [Side.term, Term.ofValue, Term.against, Term.plain, Side.on] using hcolumn

theorem any_not_or_isNull {v w : Value} (hw : w.isNull = false) :
    Truth.any [Truth.not (unlessNull Value.looseEq v w), some v.isNull] = some !v.looseEq w := by
  cases hv : v.isNull with
  | true =>
    rw [looseEq_eq_false (by rw [hv, hw]; decide)]
    simp [unlessNull, hv, Truth.any]
  | false =>
    rw [unlessNull, hv, hw]
    cases v.looseEq w <;> rfl

theorem any_not_or_isNull_ne (v w : Value) :
    Truth.any [Truth.not (unlessNull Value.looseEq v w), some (v.isNull != w.isNull)]
      = if v.isNull && w.isNull then none else some !v.looseEq w := by
  rw [unlessNull]
  cases hv : v.isNull <;> cases hw : w.isNull
  · cases v.looseEq w <;> rfl
  · rw [looseEq_eq_false (by rw [hv, hw]; decide)]
    rfl
  · rw [looseEq_eq_false (by rw [hv, hw]; decide)]
    rfl
  · rfl

theorem truth_eq (std : e.Standard) {a b : Side} (h : Matching (a.on row) (b.on row)) :
    Formula.truth e row (.eq (a.term.against b.term) (b.term.against a.term))
      = unlessNull Value.looseEq (a.on row) (b.on row) := by
  rw [Formula.truth, value_against std h, value_against std h.symm, unlessNull_equal std h]

theorem truth_differs (std : e.Standard) {a b : Side} (h : Matching (a.on row) (b.on row))
    (hb : (b.on row).isNull = false) :
    Formula.truth e row (.differs (a.term.against b.term) (b.term.against a.term))
      = some !(a.on row).looseEq (b.on row) := by
  rw [Formula.truth, value_against std h, value_against std h.symm, unlessNull_equal std h,
    any_not_or_isNull hb]

theorem truth_differsBoth (std : e.Standard) {a b : Side} (h : Matching (a.on row) (b.on row)) :
    Formula.truth e row (.differsBoth (a.term.against b.term) (b.term.against a.term))
      = if (a.on row).isNull && (b.on row).isNull then none
        else some !(a.on row).looseEq (b.on row) := by
  rw [Formula.truth, value_against std h, value_against std h.symm, unlessNull_equal std h,
    any_not_or_isNull_ne]

theorem truth_ordered (std : e.Standard) (relation : Relation) {a b : Side}
    (h : Matching (a.on row) (b.on row)) :
    Formula.truth e row (.ordered relation (a.term.against b.term) (b.term.against a.term))
      = unlessNull (inOrder relation) (a.on row) (b.on row) := by
  rw [Formula.truth, value_against std h, value_against std h.symm, unlessNull_related std relation h]

theorem truth_equal_test (std : e.Standard) {name : String} {s : Side}
    (h : Matching (columnOf row name) (s.on row)) :
    (equalityTest (Side.column name).term false s.term).truth e row
      = s.equals row (columnOf row name) := by
  have hother := truth_eq (a := .column name) std h
  cases s with
  | column other => exact hother
  | value v =>
    cases v with
    | null => simp [equalityTest, Side.term, Term.ofValue, Condition.truth, Formula.truth, Term.plain,
        Expression.value, Side.equals]
    | _ => exact hother

theorem truth_differ_test (std : e.Standard) {name : String} {s : Side}
    (h : Matching (columnOf row name) (s.on row)) :
    (equalityTest (Side.column name).term true s.term).truth e row
      = s.differs row (columnOf row name) := by
  have hvalue := truth_differs (a := .column name) std h
  cases s with
  | column other => exact truth_differsBoth (a := .column name) std h
  | value v =>
    cases v with
    | null => simp [equalityTest, Side.term, Term.ofValue, Condition.truth, Formula.truth, Term.plain,
        Expression.value, Side.differs]
    | _ => exact hvalue rfl

/-- The comparisons of a chain of sides are those of their values. -/
theorem truths_chainTests (std : e.Standard) (relation : Relation) (sides : List Side)
    (h : ∀ p ∈ neighbours (sides.map (Side.on row)), Matching p.1 p.2) :
    (chainTests relation (sides.map Side.term)).map (Condition.truth e row)
      = (neighbours (sides.map (Side.on row))).map
          (fun p => unlessNull (inOrder relation) p.1 p.2) := by
  induction sides with
  | nil => rfl
  | cons a sides ih =>
    cases sides with
    | nil => rfl
    | cons b sides =>
      have hhead : Matching (a.on row) (b.on row) := h (a.on row, b.on row) List.mem_cons_self
      have htail := ih (fun p hp => h p (List.mem_cons_of_mem _ hp))
      have hfirst := truth_ordered std relation hhead
      simp only [List.map_cons, chainTests, neighbours, List.tail_cons, List.zip_cons_cons] at htail ⊢
      rw [htail, Condition.truth, hfirst]

/-- **The condition of a test means the test with unknowns.** -/
theorem ColumnTest.truth_condition (std : e.Standard) {t : ColumnTest} (h : t.Comparable row) :
    t.condition.truth e row = t.truth row := by
  obtain ⟨column, comparison, others⟩ := t
  cases comparison with
  | eq =>
    rw [ColumnTest.condition, Condition.truth_any, List.map_map]
    exact congrArg Truth.any (List.map_congr_left (fun s hs => truth_equal_test std (h s hs)))
  | ne =>
    rw [ColumnTest.condition, Condition.truth_any, List.map_map]
    exact congrArg Truth.any (List.map_congr_left (fun s hs => truth_differ_test std (h s hs)))
  | ordered relation =>
    rw [ColumnTest.condition, Condition.truth_all]
    exact congrArg Truth.all (truths_chainTests std relation (.column column :: others) h)

mutual

theorem Chain.truth_condition (std : e.Standard) (c : Chain)
    (h : ∀ t ∈ c.tests, t.Comparable row) : c.condition.truth e row = c.truth row := by
  cases c with
  | test t => exact ColumnTest.truth_condition std (h t (List.mem_singleton_self t))
  | and first parts =>
    obtain ⟨hfirst, hparts⟩ := List.forall_mem_append.mp h
    rw [Chain.condition, Condition.truth_all, List.map_cons, Chain.truth_condition std first hfirst,
      Part.truths_conditions std parts hparts, Chain.truth]
  | or first parts =>
    obtain ⟨hfirst, hparts⟩ := List.forall_mem_append.mp h
    rw [Chain.condition, Condition.truth_any, List.map_cons, Chain.truth_condition std first hfirst,
      Part.truths_conditions std parts hparts, Chain.truth]
  | not first =>
    rw [Chain.condition, Condition.truth_not, Chain.truth_condition std first h, Chain.truth]

/-- **The condition of a filter means the filter with unknowns.** -/
theorem Part.truth_condition (std : e.Standard) (p : Part)
    (h : ∀ t ∈ p.tests, t.Comparable row) : p.condition.truth e row = p.truth row := by
  cases p with
  | const b => rfl
  | chain c => exact Chain.truth_condition std c h

theorem Part.truths_conditions (std : e.Standard) (parts : List Part)
    (h : ∀ t ∈ Part.allTests parts, t.Comparable row) :
    (Part.conditions parts).map (Condition.truth e row) = Part.truths row parts := by
  cases parts with
  | nil => rfl
  | cons p parts =>
    obtain ⟨hp, hparts⟩ := List.forall_mem_append.mp h
    rw [Part.conditions, List.map_cons, Part.truth_condition std p hp,
      Part.truths_conditions std parts hparts, Part.truths]

end

end Meaning

end Sql

end QueryAlgebra
