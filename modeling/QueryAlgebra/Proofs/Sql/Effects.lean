import QueryAlgebra.Proofs.Outcome
import QueryAlgebra.Proofs.Sql.Apart

/-!
# What an operation does to what is compiled

A queue on the row is compiled operation by operation: a column is selected, changed and tested, tests are
written one after another, and a negation is kept for the next test if none has been written. An operation
reads its operands, and then does one thing, whatever has been compiled. Two runs of one queue can therefore
be followed side by side.

* `Effect`, `Effect.Step`: what an operation does, its operands read.
* `Undecided`: no truth value decides what an operation compiles to.
* `compileEntry_does`: every operation that compiles does one thing.
* `Compiled.Formulaic.run`: what has been written stays a formula.
-/

namespace QueryAlgebra

namespace Sql

open Stateful

/-! ## 1. What an operation does -/

/-- The test of a column that is left waiting. -/
def waitingTest (e : Expression) : Condition := .formula (.eq e (.comparable (.bool true)))

namespace Compiled

/-- What is compiled before an operation that is not about a column: a column that waits is tested. -/
inductive Flushes : Compiled → Compiled → Prop
  | none (subField : Option String) (condition : Option Condition) (negateNext : Bool) :
      Flushes ⟨none, subField, condition, negateNext⟩ ⟨none, subField, condition, negateNext⟩
  | column (e : Expression) (numeric : Bool) (condition : Option Condition) (negateNext : Bool) :
      Flushes ⟨some (e, numeric), none, condition, negateNext⟩
        (emit ⟨none, none, condition, negateNext⟩ (waitingTest e))

theorem takeColumn_eq_ok {c c' : Compiled} {command : String} {e : Expression} {numeric : Bool} :
    c.takeColumn command = .ok (e, numeric, c') ↔
      c.column = some (e, numeric) ∧ c.subField = none ∧ c' = { c with column := none } := by
  obtain ⟨- | ⟨e', numeric'⟩, - | name, condition, negateNext⟩ := c
  · simp [takeColumn]
  · simp [takeColumn]
  · simp [takeColumn, and_assoc, eq_comm (b := c')]
  · simp [takeColumn]

theorem flush_eq_ok {c c' : Compiled} {command : String} :
    c.flush command = .ok c' ↔ Flushes c c' := by
  constructor
  · intro h
    obtain ⟨- | ⟨e, numeric⟩, subField, condition, negateNext⟩ := c
    · cases h
      exact .none _ _ _
    · obtain ⟨⟨e', numeric', c₁⟩, htake, h⟩ := bind_eq_ok.mp h
      obtain ⟨hcolumn, rfl, rfl⟩ := takeColumn_eq_ok.mp htake
      cases hcolumn
      cases h
      exact .column _ _ _ _
  · rintro (⟨_, _, _⟩ | ⟨_, _, _, _⟩) <;> rfl

end Compiled

/-- What an operation does to what has been compiled, its operands read. -/
inductive Effect where
  /-- Selects a column, or a field inside it. -/
  | select (name : String)
  /-- Changes the column that waits. -/
  | reshape (shape : Expression → Bool → Expression) (numeric : Bool)
  /-- Tests the column that waits. -/
  | test (test : Expression → Bool → Condition)
  /-- Joins conditions to what has been written. -/
  | join (j : Join) (parts : List Condition)
  /-- Negates what has been written, or else the next test. -/
  | negate

namespace Effect

open Compiled

/-- **One operation, by what it does.** -/
inductive Step : Effect → Compiled → Compiled → Prop
  | column (name : String) (subField : Option String) (condition : Option Condition)
      (negateNext : Bool) : Step (.select name) ⟨none, subField, condition, negateNext⟩
        ⟨some (.column name, false), subField, condition, negateNext⟩
  | field (name : String) (column : Expression × Bool) (condition : Option Condition)
      (negateNext : Bool) : Step (.select name) ⟨some column, none, condition, negateNext⟩
        ⟨some column, some name, condition, negateNext⟩
  | reshape (shape : Expression → Bool → Expression) (numeric' : Bool) (e : Expression)
      (numeric : Bool) (condition : Option Condition) (negateNext : Bool) :
      Step (.reshape shape numeric') ⟨some (e, numeric), none, condition, negateNext⟩
        ⟨some (shape e numeric, numeric'), none, condition, negateNext⟩
  | test (test : Expression → Bool → Condition) (e : Expression) (numeric : Bool)
      (subField : Option String) (condition : Option Condition) (negateNext : Bool) :
      Step (.test test) ⟨some (e, numeric), subField, condition, negateNext⟩
        (emit ⟨none, none, condition, negateNext⟩ (test e numeric))
  | join {c : Compiled} {column : Option (Expression × Bool)} {subField : Option String}
      {written : Condition} {negateNext : Bool} (j : Join) (parts : List Condition)
      (h : Flushes c ⟨column, subField, some written, negateNext⟩) :
      Step (.join j parts) c
        ⟨column, subField, some (j.combine (written :: parts)), negateNext⟩
  | negateWritten {c : Compiled} {column : Option (Expression × Bool)} {subField : Option String}
      {written : Condition} {negateNext : Bool}
      (h : Flushes c ⟨column, subField, some written, negateNext⟩) :
      Step .negate c ⟨column, subField, some written.not, negateNext⟩
  | negateNext (subField : Option String) (negateNext : Bool) :
      Step .negate ⟨none, subField, none, negateNext⟩ ⟨none, subField, none, !negateNext⟩

/-- Whether the column that waits is selected or changed. -/
def shapes : Effect → Bool
  | .select _ | .reshape _ _ => true
  | .test _ | .join _ _ | .negate => false

/-- Whether it is a negation. -/
def negates : Effect → Bool
  | .negate => true
  | .select _ | .reshape _ _ | .test _ | .join _ _ => false

/-- What is done with a column tells columns apart, all tests are formulas, and no truth value
    decides what has been written. -/
def Telling (d : Dialect) : Effect → Prop
  | .reshape shape _ => ∀ e e' numeric, e.Apart d e' → (shape e numeric).Apart d (shape e' numeric)
  | .test t => ∀ numeric, (∀ e, (t e numeric).IsFormula) ∧
      ∀ e e', e.Apart d e' → (t e numeric).Apart d (t e' numeric)
  | .join j parts => .const j.decisive ∉ parts
  | .select _ | .negate => True

end Effect

end Sql

/-- Whether an operation selects a column or changes it. -/
def Entry.shapes {M : Type → Type} : Entry M → Bool
  | .select _ | .substr _ _ | .len | .arith _ _ => true
  | _ => false

/-- Whether an operation is a negation. -/
def Entry.negates {M : Type → Type} : Entry M → Bool
  | .not => true
  | _ => false

theorem Entry.negates_of_shapes {M : Type → Type} {entry : Entry M} (h : entry.shapes = true) :
    entry.negates = false := by
  cases entry <;> first | rfl | cases h

namespace Sql

open Stateful

variable {σ : Type}

/-! ## 2. Operations -/

/-- The operation that joins conditions. -/
def Join.entry {M : Type → Type} : Join → List (Operand M) → Entry M
  | .all => .and
  | .any => .or

/-- The name of the operation that joins conditions. -/
def Join.command : Join → String
  | .all => "and"
  | .any => "or"

/-- The operation that compares with operands. -/
def equalityEntry {M : Type → Type} : Bool → List (Operand M) → Entry M
  | false => .eq
  | true => .ne

/-- The name of the operation that compares with operands. -/
def equalityCommand : Bool → String
  | false => "eq"
  | true => "ne"

/-- **No truth value decides** what an operation compiles to: a comparison has an operand, and no
    operand of a join is the truth value that decides it. -/
def Undecided (scope : Scope) : Entry (Stateful σ) → Prop
  | .eq operands | .ne operands | .ordered _ operands => operands ≠ []
  | .or operands => ∀ op ∈ operands, ∀ s, (on (compileCondition scope op) s).1 ≠ .ok (.const true)
  | .and operands => ∀ op ∈ operands, ∀ s, (on (compileCondition scope op) s).1 ≠ .ok (.const false)
  | _ => True

/-- **What an operation does,** on a state on which its operands are read. It depends on whether a field
    inside a column is selected, and on nothing else that has been compiled. -/
structure Does (scope : Scope) (entry : Entry (Stateful σ)) (subField : Option String) (s s' : σ)
    (effect : Effect) : Prop where
  telling (d : Dialect) : effect.Telling d
  shapes : effect.shapes = entry.shapes
  negates : effect.negates = entry.negates
  runs {c c' : Compiled} (hc : c.subField = subField) (h : effect.Step c c') :
    on (compileEntry scope c entry) s = (.ok c', s')

section Entries

variable {scope : Scope} {s s' : σ} {c c' : Compiled}

theorem compileTerms_eq_mapM (operands : List (Operand (Stateful σ))) :
    compileTerms scope operands = operands.mapM (compileTerm scope) := by
  induction operands with
  | nil => rw [compileTerms, List.mapM_nil]
  | cons op rest ih => rw [compileTerms, List.mapM_cons, ih]

theorem compileConditions_eq_mapM (operands : List (Operand (Stateful σ))) :
    compileConditions scope operands = operands.mapM (compileCondition scope) := by
  induction operands with
  | nil => rw [compileConditions, List.mapM_nil]
  | cons op rest ih => rw [compileConditions, List.mapM_cons, ih]

theorem plainValues_eq_mapM (command : String) (operands : List (Operand (Stateful σ))) :
    plainValues scope command operands = operands.mapM (plainValue scope command) := by
  induction operands with
  | nil => rw [plainValues, List.mapM_nil]
  | cons op rest ih => rw [plainValues, List.mapM_cons, ih]

theorem undecided_join {j : Join} {operands : List (Operand (Stateful σ))} :
    Undecided scope (j.entry operands) ↔
      ∀ op ∈ operands, ∀ s, (on (compileCondition scope op) s).1 ≠ .ok (.const j.decisive) := by
  cases j <;> exact Iff.rfl

/-- No condition of the operands of a join decides when none of them does. -/
theorem notMem_of_undecided {j : Join} {operands : List (Operand (Stateful σ))}
    (hundecided : ∀ op ∈ operands, ∀ s,
      (on (compileCondition scope op) s).1 ≠ .ok (.const j.decisive))
    {parts : List Condition} (h : on (operands.mapM (compileCondition scope)) s = (.ok parts, s')) :
    .const j.decisive ∉ parts := fun hmem => by
  obtain ⟨op, hop, s₁, s₂, hb⟩ := on_mapM_mem h hmem
  exact hundecided op hop s₁ (congrArg Prod.fst hb)

theorem on_takeColumn_bind {α : Type} {command : String}
    {f : Expression × Bool × Compiled → Stateful σ α} {a : α} :
    on (ofOutcome (c.takeColumn command) >>= f) s = (.ok a, s') ↔
      ∃ e numeric, c.column = some (e, numeric) ∧ c.subField = none ∧
        on (f (e, numeric, { c with column := none })) s = (.ok a, s') := by
  rw [on_bind_eq_ok]
  constructor
  · rintro ⟨⟨e, numeric, c₁⟩, s₁, hon, h⟩
    obtain ⟨htake, rfl⟩ := on_ofOutcome_eq_ok.mp hon
    obtain ⟨hcolumn, hsub, rfl⟩ := Compiled.takeColumn_eq_ok.mp htake
    exact ⟨e, numeric, hcolumn, hsub, h⟩
  · rintro ⟨e, numeric, hcolumn, hsub, h⟩
    have htake : c.takeColumn command = .ok (e, numeric, { c with column := none }) :=
      Compiled.takeColumn_eq_ok.mpr ⟨hcolumn, hsub, rfl⟩
    exact ⟨_, s, on_ofOutcome_eq_ok.mpr ⟨htake, rfl⟩, h⟩

theorem on_flush_bind {α : Type} {command : String} {f : Compiled → Stateful σ α} {a : α} :
    on (ofOutcome (c.flush command) >>= f) s = (.ok a, s') ↔
      ∃ c₁, Compiled.Flushes c c₁ ∧ on (f c₁) s = (.ok a, s') := by
  rw [on_bind_eq_ok]
  constructor
  · rintro ⟨c₁, s₁, hon, h⟩
    obtain ⟨hflush, rfl⟩ := on_ofOutcome_eq_ok.mp hon
    exact ⟨c₁, Compiled.flush_eq_ok.mp hflush, h⟩
  · rintro ⟨c₁, hflush, h⟩
    exact ⟨c₁, s, on_ofOutcome_eq_ok.mpr ⟨Compiled.flush_eq_ok.mpr hflush, rfl⟩, h⟩

/-- A test of the column that waits, by operands that are read. -/
theorem does_test {α : Type} (command : String) {entry : Entry (Stateful σ)} (operands : Stateful σ α)
    (test : α → Expression → Bool → Condition)
    (hentry : ∀ c₂ : Compiled, c₂.subField = c.subField → compileEntry scope c₂ entry = (do
      let (e, numeric, c₂) ← ofOutcome ({ c₂ with subField := none }.takeColumn command)
      let a ← operands
      return c₂.emit (test a e numeric)))
    (hkind : entry.shapes = false ∧ entry.negates = false)
    (htelling : ∀ a s s', on operands s = (.ok a, s') → ∀ d, (Effect.test (test a)).Telling d)
    (h : on (compileEntry scope c entry) s = (.ok c', s')) :
    ∃ effect, Does scope entry c.subField s s' effect ∧ effect.Step c c' := by
  rw [hentry c rfl] at h
  obtain ⟨e, numeric, hcolumn, -, h⟩ := on_takeColumn_bind.mp h
  obtain ⟨a, s₁, ha, h⟩ := on_bind_eq_ok.mp h
  obtain ⟨rfl, rfl⟩ := on_pure_eq_ok.mp h
  refine ⟨.test (test a), ⟨htelling a _ _ ha, hkind.1.symm, hkind.2.symm,
    fun {c₂ c₂'} hc hstep => ?_⟩, ?_⟩
  · rw [hentry c₂ hc]
    cases hstep
    refine on_takeColumn_bind.mpr ⟨_, _, rfl, rfl, ?_⟩
    exact on_bind_eq_ok.mpr ⟨a, _, ha, on_pure_eq_ok.mpr ⟨rfl, rfl⟩⟩
  · obtain ⟨_, subField, condition, negateNext⟩ := c
    cases hcolumn
    exact .test _ _ _ _ _ _

/-- A change of the column that waits, by operands that are read. -/
theorem does_reshape {α : Type} (command : String) {entry : Entry (Stateful σ)}
    (operands : Stateful σ α) (shape : α → Expression → Bool → Expression) (numeric' : Bool)
    (hentry : ∀ c : Compiled, compileEntry scope c entry = (do
      let (e, numeric, c) ← ofOutcome (c.takeColumn command)
      let a ← operands
      return { c with column := some (shape a e numeric, numeric') }))
    (hkind : entry.shapes = true ∧ entry.negates = false)
    (htelling : ∀ a d, (Effect.reshape (shape a) numeric').Telling d)
    (h : on (compileEntry scope c entry) s = (.ok c', s')) :
    ∃ effect, Does scope entry c.subField s s' effect ∧ effect.Step c c' := by
  rw [hentry] at h
  obtain ⟨e, numeric, hcolumn, hsub, h⟩ := on_takeColumn_bind.mp h
  obtain ⟨a, s₁, ha, h⟩ := on_bind_eq_ok.mp h
  obtain ⟨rfl, rfl⟩ := on_pure_eq_ok.mp h
  refine ⟨.reshape (shape a) numeric',
    ⟨htelling a, hkind.1.symm, hkind.2.symm, fun {c₂ c₂'} hc hstep => ?_⟩, ?_⟩
  · rw [hentry]
    cases hstep
    refine on_takeColumn_bind.mpr ⟨_, _, rfl, rfl, ?_⟩
    exact on_bind_eq_ok.mpr ⟨a, _, ha, on_pure_eq_ok.mpr ⟨rfl, rfl⟩⟩
  · obtain ⟨_, _, condition, negateNext⟩ := c
    cases hcolumn
    cases hsub
    exact .reshape _ _ _ _ _ _

theorem compileEntry_join (j : Join) (operands : List (Operand (Stateful σ))) :
    compileEntry scope c (j.entry operands) = (do
      let c ← ofOutcome (c.flush j.command)
      match c.condition with
      | none => throw (Error.unsupported j.command "requires a preceding condition")
      | some written =>
        let parts ← operands.mapM (compileCondition scope)
        return { c with condition := some (j.combine (written :: parts)) }) := by
  cases j <;> rw [Join.entry, compileEntry, compileConditions_eq_mapM] <;> rfl

/-- Conditions that are joined to what has been written. -/
theorem does_join (j : Join) {operands : List (Operand (Stateful σ))}
    (hundecided : Undecided scope (j.entry operands))
    (h : on (compileEntry scope c (j.entry operands)) s = (.ok c', s')) :
    ∃ effect, Does scope (j.entry operands) c.subField s s' effect ∧ effect.Step c c' := by
  have hkind : (j.entry operands).shapes = false ∧ (j.entry operands).negates = false := by
    cases j <;> exact ⟨rfl, rfl⟩
  rw [compileEntry_join] at h
  obtain ⟨⟨column, subField, - | written, negateNext⟩, hflush, h⟩ := on_flush_bind.mp h
  · cases h
  · obtain ⟨parts, s₁, hparts, h⟩ := on_bind_eq_ok.mp h
    obtain ⟨rfl, rfl⟩ := on_pure_eq_ok.mp h
    refine ⟨.join j parts, ⟨fun _ => notMem_of_undecided (undecided_join.mp hundecided) hparts,
      hkind.1.symm, hkind.2.symm, fun {c₂ c₂'} hc hstep => ?_⟩, .join _ _ hflush⟩
    rw [compileEntry_join]
    cases hstep with
    | join _ _ hflush' =>
      refine on_flush_bind.mpr ⟨_, hflush', ?_⟩
      exact on_bind_eq_ok.mpr ⟨parts, _, hparts, on_pure_eq_ok.mpr ⟨rfl, rfl⟩⟩

theorem selectField_eq_ok {command name : String} :
    c.selectField command name = .ok c' ↔ Effect.Step (.select name) c c' := by
  constructor
  · intro h
    obtain ⟨- | column, - | field, condition, negateNext⟩ := c <;> cases h
    · exact .column _ _ _ _
    · exact .column _ _ _ _
    · exact .field _ _ _ _
  · rintro (⟨_, _, _, _⟩ | ⟨_, _, _, _⟩) <;> rfl

/-- Some field is selected inside the column that waits, where an operation takes it, or none. -/
theorem subField_eq_none {α : Type} {command : String}
    {f : Expression × Bool × Compiled → Stateful σ α} {a : α}
    (h : on (ofOutcome (c.takeColumn command) >>= f) s = (.ok a, s')) : c.subField = none := by
  obtain ⟨-, -, -, hsub, -⟩ := on_takeColumn_bind.mp h
  exact hsub

/-- A test of a column, whatever is selected inside it. -/
theorem does_columnTest {α : Type} (command : String) {entry : Entry (Stateful σ)}
    (operands : Stateful σ α) (test : α → Expression → Bool → Condition)
    (hentry : ∀ c : Compiled, compileEntry scope c entry = (do
      let (e, numeric, c) ← ofOutcome (c.takeColumn command)
      let a ← operands
      return c.emit (test a e numeric)))
    (hkind : entry.shapes = false ∧ entry.negates = false)
    (htelling : ∀ a s s', on operands s = (.ok a, s') → ∀ d, (Effect.test (test a)).Telling d)
    (h : on (compileEntry scope c entry) s = (.ok c', s')) :
    ∃ effect, Does scope entry c.subField s s' effect ∧ effect.Step c c' := by
  have hsub : c.subField = none := subField_eq_none (hentry c ▸ h)
  refine does_test command operands test (fun c₂ hc => ?_) hkind htelling h
  obtain ⟨column, subField, condition, negateNext⟩ := c₂
  obtain rfl : subField = none := hc.trans hsub
  exact hentry _

/-- An equality test of a field inside a column. -/
theorem compileEntry_equality_field {field : String} (hsub : c.subField = some field) (negated : Bool)
    (operands : List (Operand (Stateful σ))) :
    compileEntry scope c (equalityEntry negated operands)
      = compileSubFieldTests scope c (equalityCommand negated) field negated operands := by
  cases negated <;> simp only [equalityEntry, equalityCommand, compileEntry, hsub]

/-- An equality test of a column. -/
theorem compileEntry_equality_column (hsub : c.subField = none) (negated : Bool)
    (operands : List (Operand (Stateful σ))) :
    compileEntry scope c (equalityEntry negated operands) = (do
      let (e, numeric, c) ← ofOutcome (c.takeColumn (equalityCommand negated))
      let terms ← compileTerms scope operands
      return c.emit (.any (terms.map (equalityTest (.expression e numeric) negated)))) := by
  cases negated <;> simp only [equalityEntry, equalityCommand, compileEntry, hsub]

/-- An equality test, of a column or of a field inside it. -/
theorem does_equality (negated : Bool) {operands : List (Operand (Stateful σ))} (hne : operands ≠ [])
    (h : on (compileEntry scope c (equalityEntry negated operands)) s = (.ok c', s')) :
    ∃ effect, Does scope (equalityEntry negated operands) c.subField s s' effect ∧
      effect.Step c c' := by
  have hkind : (equalityEntry negated operands).shapes = false ∧
      (equalityEntry negated operands).negates = false := by
    cases negated <;> exact ⟨rfl, rfl⟩
  cases hsub : c.subField with
  | none =>
    rw [← hsub]
    refine does_test (equalityCommand negated) (compileTerms scope operands)
      (fun terms e numeric => .any (terms.map (equalityTest (.expression e numeric) negated)))
      (fun c₂ hc => ?_) hkind (fun terms _ _ hterms d numeric => ?_) h
    · obtain ⟨column, subField, condition, negateNext⟩ := c₂
      obtain rfl : subField = none := hc.trans hsub
      exact compileEntry_equality_column rfl negated operands
    · have hne := on_mapM_ne_nil (compileTerms_eq_mapM operands ▸ hterms) hne
      refine ⟨fun e => any_isFormula (equalityTest_isFormula _ _) hne, fun e e' he => ?_⟩
      exact any_apart_left (fun t => equalityTest_left (.expression he numeric) negated t)
        (equalityTest_isFormula _ _) (equalityTest_isFormula _ _) hne
  | some field =>
    rw [← hsub]
    refine does_test (equalityCommand negated) (plainValues scope (equalityCommand negated) operands)
      (fun values e _ => .any (values.map (subFieldTest (.textView e) field negated)))
      (fun c₂ hc => ?_) hkind (fun values _ _ hvalues d numeric => ?_) h
    · exact compileEntry_equality_field (hc.trans hsub) negated operands
    · have hne := on_mapM_ne_nil (plainValues_eq_mapM _ operands ▸ hvalues) hne
      refine ⟨fun e => any_isFormula (subFieldTest_isFormula _ _ _) hne, fun e e' he => ?_⟩
      exact any_apart_left (fun v => subFieldTest_apart he.textView field negated v)
        (subFieldTest_isFormula _ _ _) (subFieldTest_isFormula _ _ _) hne

/-- A column that is selected, or a field inside it. -/
theorem does_select {selector : Operand (Stateful σ)}
    (h : on (compileEntry scope c (.select selector)) s = (.ok c', s')) :
    ∃ effect, Does scope (.select selector) c.subField s s' effect ∧ effect.Step c c' := by
  rw [compileEntry] at h
  obtain ⟨v, s₁, hv, h⟩ := on_bind_eq_ok.mp h
  obtain ⟨name, s₂, hname, h⟩ := on_bind_eq_ok.mp h
  obtain ⟨hselect, rfl⟩ := on_ofOutcome_eq_ok.mp h
  refine ⟨.select name, ⟨fun _ => trivial, rfl, rfl, fun {c₂ c₂'} _ hstep => ?_⟩,
    selectField_eq_ok.mp hselect⟩
  rw [compileEntry]
  refine on_bind_eq_ok.mpr ⟨v, s₁, hv, on_bind_eq_ok.mpr ⟨name, _, hname, ?_⟩⟩
  exact on_ofOutcome_eq_ok.mpr ⟨selectField_eq_ok.mpr hstep, rfl⟩

/-- A negation, of what has been written or of the next test. -/
theorem does_not (h : on (compileEntry scope c .not) s = (.ok c', s')) :
    ∃ effect, Does scope .not c.subField s s' effect ∧ effect.Step c c' := by
  rw [compileEntry] at h
  obtain ⟨c₁, hflush, h⟩ := on_flush_bind.mp h
  have hruns {c₂ c₂' : Compiled} (hstep : Effect.Step .negate c₂ c₂') :
      on (compileEntry scope c₂ .not) s = (.ok c₂', s) := by
    rw [compileEntry]
    cases hstep with
    | negateWritten hflush' => exact on_flush_bind.mpr ⟨_, hflush', rfl⟩
    | negateNext subField negateNext => exact on_flush_bind.mpr ⟨_, .none _ _ _, rfl⟩
  obtain ⟨column, subField, - | written, negateNext⟩ := c₁
  · obtain ⟨rfl, rfl⟩ := on_pure_eq_ok.mp h
    refine ⟨.negate, ⟨fun _ => trivial, rfl, rfl, fun _ hstep => hruns hstep⟩, ?_⟩
    cases hflush
    exact .negateNext _ _
  · obtain ⟨rfl, rfl⟩ := on_pure_eq_ok.mp h
    exact ⟨.negate, ⟨fun _ => trivial, rfl, rfl, fun _ hstep => hruns hstep⟩,
      .negateWritten hflush⟩

/-- **Every operation that compiles does one thing.** -/
theorem compileEntry_does {entry : Entry (Stateful σ)} (hundecided : Undecided scope entry)
    (h : on (compileEntry scope c entry) s = (.ok c', s')) :
    ∃ effect, Does scope entry c.subField s s' effect ∧ effect.Step c c' := by
  match entry with
  | .select selector => exact does_select h
  | .eq operands => exact does_equality false hundecided h
  | .ne operands => exact does_equality true hundecided h
  | .ordered relation operands =>
    refine does_columnTest relation.command (compileTerms scope operands)
      (fun terms e numeric => .all (chainTests relation (.expression e numeric :: terms)))
      (fun c => by rw [compileEntry]) ⟨rfl, rfl⟩ (fun terms _ _ hterms d numeric => ?_) h
    have hne := on_mapM_ne_nil (compileTerms_eq_mapM operands ▸ hterms) hundecided
    exact ⟨fun e => all_chainTests_isFormula relation _ hne, fun e e' he =>
      all_chainTests_left (.expression he numeric) relation hne⟩
  | .startsWith start =>
    refine does_columnTest "starts_with" (plainValue scope "starts_with" start)
      (fun v e _ => startsWithTest e v) (fun c => by rw [compileEntry]) ⟨rfl, rfl⟩
      (fun v _ _ _ d numeric => ?_) h
    exact ⟨fun e => Condition.isFormula_formula _, fun e e' he => .formula (.like he.textView _)⟩
  | .endsWith ending =>
    refine does_columnTest "ends_with" (plainValue scope "ends_with" ending)
      (fun v e _ => endsWithTest e v) (fun c => by rw [compileEntry]) ⟨rfl, rfl⟩
      (fun v _ _ _ d numeric => ?_) h
    exact ⟨fun e => Condition.isFormula_formula _, fun e e' he => .formula (.like he.textView _)⟩
  | .substr start none =>
    exact does_reshape "substr" (do
        let v ← plainValue scope "substr" start
        ofOutcome (v.asInteger "substr"))
      (fun start e _ => substrOf e start none) false (fun c => by rw [compileEntry]; simp)
      ⟨rfl, rfl⟩ (fun _ _ _ _ _ he => he.textView.substr _ _) h
  | .substr start (some length) =>
    exact does_reshape "substr" (do
        let v ← plainValue scope "substr" start
        let start ← ofOutcome (v.asInteger "substr")
        let v ← plainValue scope "substr" length
        let length ← ofOutcome (v.asInteger "substr")
        return (start, length))
      (fun a e _ => substrOf e a.1 (some a.2)) false (fun c => by rw [compileEntry]; simp)
      ⟨rfl, rfl⟩ (fun _ _ _ _ _ he => he.textView.substr _ _) h
  | .len =>
    exact does_reshape "len" (pure ()) (fun _ e _ => .length (.textView e)) true
      (fun c => by rw [compileEntry]; simp) ⟨rfl, rfl⟩ (fun _ _ _ _ _ he => he.textView.length) h
  | .arith op operands =>
    exact does_reshape op.command (compileTerms scope operands)
      (fun terms e numeric => terms.foldl (fun acc t => Expression.arith op acc t.asNumber)
        (Term.expression e numeric).asNumber) true (fun c => by rw [compileEntry]) ⟨rfl, rfl⟩
      (fun _ _ _ _ numeric he => foldl_arith_left (Term.Apart.expression he numeric).asNumber op _) h
  | .or operands => exact does_join .any hundecided h
  | .and operands => exact does_join .all hundecided h
  | .not => exact does_not h
  | .call _ | .branch _ | .count | .limit _ | .difference _ | .contains _ | .filter _ | .pluck _
  | .map _ | .distinct =>
    rw [compileEntry] at h
    cases h

end Entries

/-! ## 3. Queues -/

section Queues

variable {scope : Scope} {s s' : σ} {c r : Compiled} {q : List (Entry (Stateful σ))}

theorem on_compileQueue_cons {entry : Entry (Stateful σ)} :
    on (compileQueue scope c (entry :: q)) s = (.ok r, s') ↔
      ∃ c₁ s₁, on (compileEntry scope c entry) s = (.ok c₁, s₁) ∧
        on (compileQueue scope c₁ q) s₁ = (.ok r, s') := by
  rw [compileQueue, on_bind_eq_ok]

theorem on_compileQueue_append {q' : List (Entry (Stateful σ))} :
    on (compileQueue scope c (q ++ q')) s = (.ok r, s') ↔
      ∃ c₁ s₁, on (compileQueue scope c q) s = (.ok c₁, s₁) ∧
        on (compileQueue scope c₁ q') s₁ = (.ok r, s') := by
  induction q generalizing c s with
  | nil => simp [compileQueue]
  | cons entry q ih =>
    simp only [List.cons_append, on_compileQueue_cons, ih]
    constructor
    · rintro ⟨c₁, s₁, hentry, c₂, s₂, hq, hq'⟩
      exact ⟨c₂, s₂, ⟨c₁, s₁, hentry, hq⟩, hq'⟩
    · rintro ⟨c₂, s₂, ⟨c₁, s₁, hentry, hq⟩, hq'⟩
      exact ⟨c₁, s₁, hentry, c₂, s₂, hq, hq'⟩

theorem compileTerm_node {source : Source (Stateful σ)} (hrow : source.isRow scope = true)
    {t : Term} : on (compileTerm scope (.node source q)) s = (.ok t, s') ↔
      ∃ c, on (compileQueue scope {} q) s = (.ok c, s') ∧ c.toTerm = .ok t := by
  rw [compileTerm, if_pos hrow]
  exact on_bind_ofOutcome_eq_ok

theorem compileCondition_node {source : Source (Stateful σ)} (hrow : source.isRow scope = true)
    {condition : Condition} :
    on (compileCondition scope (.node source q)) s = (.ok condition, s') ↔
      ∃ c, on (compileQueue scope {} q) s = (.ok c, s') ∧ c.toCondition = .ok condition := by
  rw [compileCondition, if_pos hrow]
  exact on_bind_ofOutcome_eq_ok

end Queues

/-! ## 4. Formulas -/

/-- What has been compiled, the truth value of no constant among it. -/
def Compiled.Formulaic (c : Compiled) : Prop := ∀ b, c.condition ≠ some (.const b)

section Formulaic

variable {d : Dialect} {scope : Scope} {s s' : σ} {c r : Compiled} {effect : Effect}

theorem Compiled.Formulaic.emit (h : c.Formulaic) {test : Condition} (htest : test.IsFormula) :
    (c.emit test).Formulaic := by
  obtain ⟨t, rfl⟩ := htest.eq_formula
  obtain ⟨column, subField, - | (w | b), - | -⟩ := c <;>
    first | exact absurd rfl (h b) | (rintro b ⟨⟩)

theorem Compiled.Formulaic.flush (h : c.Formulaic) (hflush : Compiled.Flushes c r) : r.Formulaic := by
  cases hflush with
  | none => exact h
  | column e numeric condition negateNext =>
    have htaken : Compiled.Formulaic ⟨none, none, condition, negateNext⟩ := h
    exact htaken.emit (Condition.isFormula_formula _)

/-- **What has been written stays a formula.** -/
theorem Compiled.Formulaic.step (h : c.Formulaic) (htelling : effect.Telling d)
    (hstep : effect.Step c r) : r.Formulaic := by
  cases hstep with
  | column | field | reshape => exact h
  | test test e numeric subField condition negateNext =>
    have htaken : Compiled.Formulaic ⟨none, none, condition, negateNext⟩ := h
    exact htaken.emit ((htelling numeric).1 e)
  | @join _ column subField written negateNext j parts hflush =>
    obtain - | b := written
    · rw [j.combine_cons htelling]
      rintro b ⟨⟩
    · exact absurd rfl (h.flush hflush b)
  | @negateWritten _ column subField written negateNext hflush =>
    obtain - | b := written
    · rintro b ⟨⟩
    · exact absurd rfl (h.flush hflush b)
  | negateNext => exact nofun

theorem Compiled.Formulaic.run {q : List (Entry (Stateful σ))} (h : c.Formulaic)
    (hq : ∀ entry ∈ q, Undecided scope entry)
    (hrun : on (compileQueue scope c q) s = (.ok r, s')) : r.Formulaic := by
  induction q generalizing c s with
  | nil =>
    rw [compileQueue] at hrun
    obtain ⟨rfl, rfl⟩ := on_pure_eq_ok.mp hrun
    exact h
  | cons entry rest ih =>
    obtain ⟨hentry, hrest⟩ := List.forall_mem_cons.mp hq
    obtain ⟨c₁, s₁, hc₁, hrun⟩ := on_compileQueue_cons.mp hrun
    obtain ⟨effect, hdoes, hstep⟩ := compileEntry_does hentry hc₁
    exact ih (h.step (hdoes.telling .sqlite) hstep) hrest hrun

end Formulaic

end Sql

end QueryAlgebra
