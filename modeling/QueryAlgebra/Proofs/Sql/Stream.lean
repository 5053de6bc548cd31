import QueryAlgebra.Proofs.Query.Rows
import QueryAlgebra.Proofs.Sql.Filter
import QueryAlgebra.Sql.Stream

/-!
# A plan answers what the evaluator answers

A plan has one place for every clause of a query, and the clauses are read in one order: filter,
project, drop repeated rows, cut. The queue has its operations in any order. What the plan's query
answers, and the operations left make of it, is what the evaluator makes of all rows
(`finish_answer`).

The meaning of formulas is left open: the conditions that the filters of the queue are compiled to
are taken to hold on a row where the filter accepts it (`Faithful`).

* `StreamPlan.answer`: the rows that the query of a plan answers, clause by clause.
* `Reaches`: the evaluator has come to the rows that the query answers so far. Every operation that
  is taken into the plan keeps this (`reaches_filter` … `reaches_limit`).
* `Abreast`: the same with what is left of the queue. One operation completes the plan or keeps plan
  and evaluator abreast (`Abreast.step`), so that a queue ends with its answer (`planFrom_answer`).
* A filter that is taken after `distinct` is read before it, and a projection that is taken after a
  limit is read before that. The first is harmless because rows with one fingerprint are equal.
-/

namespace QueryAlgebra

namespace Sql

/-- A condition on a row, by a reading of formulas. -/
def Condition.reads (accepts : Formula → Value → Bool) (row : Value) : Condition → Bool
  | .formula f => accepts f row
  | .const b => b

namespace StreamPlan

/-! ## 1. The query of a plan -/

section Answer

variable {M : Type → Type} (plan : StreamPlan M)

/-- The rows that pass all filters. -/
def kept (accepts : Formula → Value → Bool) (rows : List Value) : List Value :=
  if plan.kill then [] else rows.filter (fun row => plan.filters.all (fun f => accepts f row))

/-- The rows with the columns kept. -/
def project (rows : List Value) : Except Error (List Value) :=
  match plan.columns with
  | none => .ok rows
  | some names => rows.mapM (Value.pluck names "pluck")

/-- The rows, without those whose fingerprint occurred before when they are to be dropped. -/
def once (rows : List Value) : List Value :=
  if plan.distinct then Value.distinctFrom [] rows else rows

/-- The first rows, as many as are kept. -/
def cut (rows : List Value) : List Value :=
  match plan.limit with
  | none => rows
  | some n => rows.take n

/-- **The rows that the query of a plan answers:** those that pass the filters, projected, each once,
    and cut. -/
def answer (accepts : Formula → Value → Bool) (rows : List Value) : Except Error (List Value) := do
  return plan.cut (plan.once (← plan.project (plan.kept accepts rows)))

end Answer

end StreamPlan

/-- Every filter that is taken into the plan of a queue is compiled to a condition that holds on a
    row where the filter accepts it. -/
def Faithful (scope : Scope) (accepts : Formula → Value → Bool) (rows : List Value) :
    List (Entry (Except Error)) → Prop
  | .filter predicate :: rest => ∀ condition, compilePredicate scope predicate = .ok condition →
    (∀ row ∈ rows, ∀ b, predicate.holds scope row = .ok b → condition.reads accepts row = b) ∧
      match condition with
      | .const false => True
      | _ => Faithful scope accepts rows rest
  | .distinct :: rest => Faithful scope accepts rows rest
  | _ => True

/-! ## 2. Operations taken into a plan -/

section Steps

variable {scope : Scope} {accepts : Formula → Value → Bool} {rows items : List Value}
  {plan q : StreamPlan (Except Error)}

/-- The evaluator has come to the rows that the query of the plan answers. -/
structure Reaches (accepts : Formula → Value → Bool) (rows : List Value)
    (plan : StreamPlan (Except Error)) (items : List Value) : Prop where
  /-- The query answers the rows. -/
  answer : plan.answer accepts rows = .ok items
  /-- The result is not known to be empty. -/
  alive : plan.kill = false
  /-- No operation is left so far. -/
  rest : plan.rest = []

theorem kept_subset : ∀ row ∈ plan.kept accepts rows, row ∈ rows := by
  intro row hrow
  unfold StreamPlan.kept at hrow
  split at hrow
  · cases hrow
  · exact List.mem_of_mem_filter hrow

/-- Before a projection the rows that the query answers are rows of the table. -/
theorem subset_of_reaches (h : Reaches accepts rows plan items) (hcolumns : plan.columns = none) :
    ∀ row ∈ items, row ∈ rows := by
  have hanswer := h.answer
  simp only [StreamPlan.answer, StreamPlan.project, hcolumns, ok_bind, pure_eq_ok] at hanswer
  subst hanswer
  have honce : ∀ row ∈ plan.once (plan.kept accepts rows), row ∈ rows := by
    intro row hrow
    unfold StreamPlan.once at hrow
    split at hrow
    · exact kept_subset row (Value.distinctFrom_subset _ _ row hrow)
    · exact kept_subset row hrow
  intro row hrow
  unfold StreamPlan.cut at hrow
  split at hrow
  · exact honce row hrow
  · exact honce row (List.mem_of_mem_take hrow)

/-- The plan with one more filter. -/
theorem reaches_filter (hrows : AllObjects rows) (h : Reaches accepts rows plan items)
    (hlimit : plan.limit = none) (hcolumns : plan.columns = none) (f : Formula) :
    Reaches accepts rows { plan with filters := plan.filters ++ [f] }
      (items.filter (accepts f)) := by
  obtain ⟨filters, distinct, columns, limit, kill, rest⟩ := plan
  obtain ⟨hanswer, halive, hrest⟩ := h
  simp only at hlimit hcolumns halive
  subst hlimit hcolumns halive
  have hkept : rows.filter (fun row => (filters ++ [f]).all (fun f => accepts f row))
      = (rows.filter (fun row => filters.all (fun f => accepts f row))).filter (accepts f) := by
    rw [List.filter_filter]
    congr 1
    funext row
    simp [Bool.and_comm]
  have hequal : ∀ kept : List Value, (∀ row ∈ kept, row ∈ rows) → ∀ a ∈ kept, ∀ b ∈ kept,
      a.fingerprint = b.fingerprint → accepts f a = accepts f b := by
    intro kept hkept a ha b hb hab
    obtain ⟨fs, rfl⟩ := hrows a (hkept a ha)
    obtain ⟨gs, rfl⟩ := hrows b (hkept b hb)
    rw [Value.object_eq_of_fingerprint_eq hab]
  refine ⟨?_, rfl, hrest⟩
  obtain rfl := Except.ok.inj hanswer
  refine congrArg Except.ok ?_
  unfold StreamPlan.kept StreamPlan.once StreamPlan.cut
  simp only [Bool.false_eq_true, if_false]
  rw [hkept]
  split
  · exact Value.distinctFrom_filter (hequal _ (fun row hrow => List.mem_of_mem_filter hrow))
      (fun a _ _ => Iff.rfl)
  · rfl

/-- The plan with repeated rows dropped. -/
theorem reaches_distinct (h : Reaches accepts rows plan items) (hlimit : plan.limit = none)
    (hdistinct : plan.distinct = false) :
    Reaches accepts rows { plan with distinct := true } (Value.distinctFrom [] items) := by
  have hanswer := h.answer
  refine ⟨?_, h.alive, h.rest⟩
  obtain ⟨projected, hproject, hcut⟩ := bind_eq_ok.mp hanswer
  have hitems := pure_eq_ok.mp hcut
  simp only [StreamPlan.cut, hlimit, StreamPlan.once, hdistinct, Bool.false_eq_true,
    if_false] at hitems
  subst hitems
  refine bind_eq_ok.mpr ⟨projected, hproject, ?_⟩
  simp [StreamPlan.cut, hlimit, StreamPlan.once]

/-- The plan with a projection. -/
theorem reaches_pluck (hrows : AllObjects rows) (h : Reaches accepts rows plan items)
    (hcolumns : plan.columns = none) (hdistinct : plan.distinct = false) (names : List String) :
    Reaches accepts rows { plan with columns := some names }
      (items.map (Value.pluckedRow names)) := by
  have hobjects : AllObjects (plan.kept accepts rows) :=
    fun row hrow => hrows row (kept_subset row hrow)
  obtain ⟨filters, distinct, columns, limit, kill, rest⟩ := plan
  obtain ⟨hanswer, halive, hrest⟩ := h
  simp only at hcolumns hdistinct halive
  subst hcolumns hdistinct halive
  refine ⟨?_, rfl, hrest⟩
  obtain rfl := Except.ok.inj hanswer
  refine bind_eq_ok.mpr ⟨_, Value.mapM_pluck names "pluck" hobjects, congrArg Except.ok ?_⟩
  unfold StreamPlan.once StreamPlan.cut
  cases limit with
  | none => rfl
  | some n => exact List.map_take.symm

/-- The plan with one more limit. -/
theorem reaches_limit (h : Reaches accepts rows plan items) (n : Nat) :
    Reaches accepts rows (plan.limited n) (items.take n) := by
  refine ⟨?_, h.alive, h.rest⟩
  obtain ⟨projected, hproject, hcut⟩ := bind_eq_ok.mp h.answer
  obtain rfl := pure_eq_ok.mp hcut
  refine bind_eq_ok.mpr ⟨projected, hproject, ?_⟩
  rw [pure_eq_ok]
  unfold StreamPlan.limited StreamPlan.cut StreamPlan.once
  cases plan.limit with
  | none => rfl
  | some m => simp [List.take_take, min_comm]

/-- A query answers no more rows than there are. -/
theorem length_le_of_reaches (hrows : AllObjects rows) (h : Reaches accepts rows plan items) :
    items.length ≤ rows.length := by
  obtain ⟨projected, hproject, hcut⟩ := bind_eq_ok.mp h.answer
  obtain rfl := pure_eq_ok.mp hcut
  have hkept : (plan.kept accepts rows).length ≤ rows.length := by
    unfold StreamPlan.kept
    split
    · exact Nat.zero_le _
    · exact List.length_filter_le _ _
  have hprojected : projected.length ≤ (plan.kept accepts rows).length := by
    unfold StreamPlan.project at hproject
    split at hproject
    · obtain rfl := Except.ok.inj hproject
      exact Nat.le_refl _
    · rw [Value.mapM_pluck _ _ (fun row hrow => hrows row (kept_subset row hrow))] at hproject
      obtain rfl := Except.ok.inj hproject
      exact (List.length_map _).le
  have honce : (plan.once projected).length ≤ projected.length := by
    unfold StreamPlan.once
    split
    · exact Value.length_distinctFrom_le _ _
    · exact Nat.le_refl _
  have hcut : (plan.cut (plan.once projected)).length ≤ (plan.once projected).length := by
    unfold StreamPlan.cut
    split
    · exact Nat.le_refl _
    · exact List.length_take_le' _ _
  omega

/-! ## 3. Queues -/

/-- **What a plan gives:** its query answers rows of which the operations left make the value. -/
def Answered (scope : Scope) (accepts : Formula → Value → Bool) (rows : List Value)
    (q : StreamPlan (Except Error)) (v : Value) : Prop :=
  ∃ out, q.answer accepts rows = .ok out ∧ q.finish scope out = .ok v

/-- **The plan and the evaluator are abreast:** the evaluator has come to the rows that the query
    answers so far, and of what is left of the queue one makes a plan and the other a value. -/
structure Abreast (scope : Scope) (accepts : Formula → Value → Bool) (rows : List Value)
    (q : StreamPlan (Except Error)) (v : Value) (plan : StreamPlan (Except Error))
    (items : List Value) (entries : List (Entry (Except Error))) : Prop where
  /-- The query answers the rows. -/
  reaches : Reaches accepts rows plan items
  /-- Filters that may still be taken hold where they accept. -/
  faithful : plan.limit = none → plan.columns = none → Faithful scope accepts rows entries
  /-- The rest of the queue is planned. -/
  planned : planFrom scope plan entries = .ok q
  /-- The rest of the queue is evaluated. -/
  evaluated : evaluate scope (.array items) entries = .ok v

section Queues

variable {rest : List (Entry (Except Error))} {v : Value}

/-- What the rest of a queue makes of the rows that a query answers. -/
theorem leave_answer {entries : List (Entry (Except Error))}
    (h : Abreast scope accepts rows q v plan items entries)
    (hq : (pure (plan.leave entries) : Except Error _) = .ok q) :
    Answered scope accepts rows q v := by
  obtain rfl := pure_eq_ok.mp hq
  exact ⟨items, h.reaches.answer, h.evaluated⟩

/-- A plan whose result is empty answers no rows. -/
theorem killed_answer {entries : List (Entry (Except Error))}
    (heval : evaluate scope (.array []) entries = .ok v) :
    Answered scope accepts rows { plan.leave entries with kill := true } v := by
  refine ⟨[], bind_eq_ok.mpr ⟨[], ?_, ?_⟩, heval⟩
  · unfold StreamPlan.project
    split <;> rfl
  · unfold StreamPlan.cut StreamPlan.once
    rw [pure_eq_ok]
    split <;> split <;> simp [Value.distinctFrom]

theorem plucked_eq_ok {names : Except Error (List String)} {plan' : StreamPlan (Except Error)}
    (h : plan.plucked names = .ok plan') :
    plan.columns = none ∧ plan.distinct = false ∧
      ∃ ns, names = .ok ns ∧ plan' = { plan with columns := some ns } := by
  unfold StreamPlan.plucked at h
  by_cases hcolumns : plan.columns.isSome = true
  · rw [if_pos hcolumns] at h
    obtain ⟨_, hthrow, -⟩ := bind_eq_ok.mp h
    exact absurd hthrow throw_ne_ok.mp
  rw [if_neg hcolumns] at h
  by_cases hdistinct : plan.distinct = true
  · rw [if_pos hdistinct] at h
    obtain ⟨_, hthrow, -⟩ := bind_eq_ok.mp h
    exact absurd hthrow throw_ne_ok.mp
  rw [if_neg hdistinct] at h
  obtain ⟨ns, hns, hplan⟩ := bind_eq_ok.mp h
  exact ⟨Option.not_isSome_iff_eq_none.mp hcolumns, Bool.not_eq_true _ ▸ hdistinct, ns, hns,
    (pure_eq_ok.mp hplan).symm⟩

namespace Abreast

/-- The evaluator's step at the operation that comes next. -/
theorem evaluated_cons {entry : Entry (Except Error)}
    (h : Abreast scope accepts rows q v plan items (entry :: rest)) :
    ∃ next, entry.apply scope (.array items) = .ok next ∧ evaluate scope next rest = .ok v := by
  have heval := h.evaluated
  rw [evaluate] at heval
  exact bind_eq_ok.mp heval

/-- A filter is left after a projection or a limit; otherwise it is taken, or no row passes it. -/
theorem filter {predicate : Predicate (Except Error)} (hrows : AllObjects rows)
    (h : Abreast scope accepts rows q v plan items (.filter predicate :: rest)) :
    Answered scope accepts rows q v ∨
      ∃ plan' items', Abreast scope accepts rows q v plan' items' rest := by
  obtain ⟨next, happ, hnext⟩ := h.evaluated_cons
  have hplan := h.planned
  rw [planFrom] at hplan
  by_cases hlate : (plan.limit.isSome || plan.columns.isSome) = true
  · rw [if_pos hlate] at hplan
    exact .inl (leave_answer h hplan)
  rw [if_neg hlate] at hplan
  obtain ⟨condition, hcompile, hplan⟩ := bind_eq_ok.mp hplan
  simp only [Bool.or_eq_true, not_or, Option.not_isSome_iff_eq_none] at hlate
  obtain ⟨hlimit, hcolumns⟩ := hlate
  obtain ⟨hreads, hrest⟩ := h.faithful hlimit hcolumns condition hcompile
  simp only [Entry.apply, Value.asArray, ofOutcome_self, ok_bind] at happ
  obtain ⟨out, hout, hpass⟩ := bind_eq_ok.mp happ
  obtain rfl := pure_eq_ok.mp hpass
  have hsubset := subset_of_reaches h.reaches hcolumns
  obtain rfl := filterM_eq_ok (fun row hrow => hreads row (hsubset row hrow)) hout
  cases condition with
  | formula f =>
    exact .inr ⟨_, _, reaches_filter hrows h.reaches hlimit hcolumns f, fun _ _ => hrest, hplan,
      hnext⟩
  | const b =>
    cases b with
    | true =>
      have hall : items.filter (fun row => (Condition.const true).reads accepts row) = items :=
        List.filter_eq_self.mpr (fun row _ => rfl)
      rw [hall] at hnext
      exact .inr ⟨_, _, h.reaches, fun _ _ => hrest, hplan, hnext⟩
    | false =>
      have hnone : items.filter (fun row => (Condition.const false).reads accepts row) = [] :=
        List.filter_eq_nil_iff.mpr (fun row _ => Bool.false_ne_true)
      rw [hnone] at hnext
      obtain rfl := pure_eq_ok.mp hplan
      exact .inl (killed_answer hnext)

/-- `distinct` is left after a limit; otherwise it is taken. -/
theorem distinct (h : Abreast scope accepts rows q v plan items (.distinct :: rest)) :
    Answered scope accepts rows q v ∨
      ∃ plan' items', Abreast scope accepts rows q v plan' items' rest := by
  obtain ⟨next, happ, hnext⟩ := h.evaluated_cons
  have hplan := h.planned
  rw [planFrom] at hplan
  by_cases hlate : plan.limit.isSome = true
  · rw [if_pos hlate] at hplan
    exact .inl (leave_answer h hplan)
  rw [if_neg hlate] at hplan
  have hlimit : plan.limit = none := Option.not_isSome_iff_eq_none.mp hlate
  by_cases hdistinct : plan.distinct = true
  · rw [if_pos hdistinct] at hplan
    obtain ⟨_, hthrow, -⟩ := bind_eq_ok.mp hplan
    exact absurd hthrow throw_ne_ok.mp
  rw [if_neg hdistinct] at hplan
  simp only [Entry.apply, Value.asArray, ofOutcome_self, ok_bind] at happ
  obtain rfl := pure_eq_ok.mp happ
  exact .inr ⟨_, _, reaches_distinct h.reaches hlimit (Bool.not_eq_true _ ▸ hdistinct), h.faithful,
    hplan, hnext⟩

/-- A limit is always taken. -/
theorem limit {n : Operand (Except Error)} (hrows : AllObjects rows)
    (hlen : rows.length < 0x8000000000000000)
    (h : Abreast scope accepts rows q v plan items (.limit n :: rest)) :
    ∃ plan' items', Abreast scope accepts rows q v plan' items' rest := by
  obtain ⟨next, happ, hnext⟩ := h.evaluated_cons
  have hplan := h.planned
  rw [planFrom] at hplan
  simp only [Entry.apply, Value.asArray, Value.asInteger, ofOutcome_self, ok_bind] at happ
  obtain ⟨k, hk, happ⟩ := bind_eq_ok.mp happ
  obtain ⟨i, hi, happ⟩ := bind_eq_ok.mp happ
  obtain ⟨d, hd, hi⟩ := bind_eq_ok.mp hi
  obtain rfl := pure_eq_ok.mp hi
  obtain rfl := pure_eq_ok.mp happ
  rw [hk, ok_bind, ofOutcome_self, hd, ok_bind] at hplan
  have hitems := length_le_of_reaches hrows h.reaches
  rw [take_truncate d (by omega)] at hnext
  refine ⟨_, _, reaches_limit h.reaches d.toWord, fun hlimit _ => ?_, hplan, hnext⟩
  cases hlimit

/-- A projection is always taken. -/
theorem pluck {names : List (Operand (Except Error))} (hrows : AllObjects rows)
    (h : Abreast scope accepts rows q v plan items (.pluck names :: rest)) :
    ∃ plan' items', Abreast scope accepts rows q v plan' items' rest := by
  obtain ⟨next, happ, hnext⟩ := h.evaluated_cons
  have hplan := h.planned
  rw [planFrom] at hplan
  obtain ⟨plan', hplucked, hplan⟩ := bind_eq_ok.mp hplan
  obtain ⟨hcolumns, hdistinct, ns, hns, rfl⟩ := plucked_eq_ok hplucked
  simp only [fieldNames, ofOutcome_self] at hns
  simp only [Entry.apply, Value.asArray, ofOutcome_self, ok_bind] at happ
  obtain ⟨values, hvalues, happ⟩ := bind_eq_ok.mp happ
  rw [hvalues, ok_bind] at hns
  rw [hns, ok_bind] at happ
  obtain ⟨out, hout, hpass⟩ := bind_eq_ok.mp happ
  obtain rfl := pure_eq_ok.mp hpass
  have hobjects : AllObjects items :=
    fun row hrow => hrows row (subset_of_reaches h.reaches hcolumns row hrow)
  rw [Value.mapM_pluck ns "pluck" hobjects] at hout
  obtain rfl := Except.ok.inj hout
  refine ⟨_, _, reaches_pluck hrows h.reaches hcolumns hdistinct ns, fun _ hnone => ?_, hplan, hnext⟩
  cases hnone

/-- **One operation:** the plan is complete there and answers, or both go on and stay abreast. -/
theorem step {entry : Entry (Except Error)} (hrows : AllObjects rows)
    (hlen : rows.length < 0x8000000000000000)
    (h : Abreast scope accepts rows q v plan items (entry :: rest)) :
    Answered scope accepts rows q v ∨
      ∃ plan' items', Abreast scope accepts rows q v plan' items' rest := by
  cases entry with
  | filter predicate => exact h.filter hrows
  | distinct => exact h.distinct
  | limit n => exact .inr (h.limit hrows hlen)
  | pluck names => exact .inr (h.pluck hrows)
  | _ => exact .inl (leave_answer h h.planned)

end Abreast

/-- The agreement for every queue, by induction along the operations that are taken into the plan. -/
theorem planFrom_answer {entries : List (Entry (Except Error))} (hrows : AllObjects rows)
    (hlen : rows.length < 0x8000000000000000)
    (h : Abreast scope accepts rows q v plan items entries) : Answered scope accepts rows q v := by
  induction entries generalizing plan items with
  | nil =>
    obtain rfl := pure_eq_ok.mp h.planned
    refine ⟨items, h.reaches.answer, ?_⟩
    rw [StreamPlan.finish, h.reaches.rest]
    exact h.evaluated
  | cons entry rest ih =>
    obtain hdone | ⟨plan', items', hnext⟩ := h.step hrows hlen
    · exact hdone
    · exact ih hnext

end Queues

/-- **A plan answers what the evaluator answers.** For every queue that has a plan and every list of
    fewer than `2^63` objects on which the evaluator succeeds, if the compiled filters mean what the
    filters of the queue mean: the rows that the plan's query answers, with the operations left run
    on them, give the evaluator's answer. -/
theorem finish_answer {entries : List (Entry (Except Error))} {v : Value}
    (hplan : planStream scope entries = .ok q) (hrows : AllObjects rows)
    (hlen : rows.length < 0x8000000000000000) (hfaithful : Faithful scope accepts rows entries)
    (heval : evaluate scope (.array rows) entries = .ok v) :
    (do q.finish scope (← q.answer accepts rows)) = .ok v := by
  have hstart : Reaches accepts rows {} rows := by
    refine ⟨bind_eq_ok.mpr ⟨rows, ?_, rfl⟩, rfl, rfl⟩
    exact congrArg Except.ok (List.filter_eq_self.mpr (fun row _ => rfl))
  exact bind_eq_ok.mpr (planFrom_answer hrows hlen ⟨hstart, fun _ _ => hfaithful, hplan, heval⟩)

end Steps

/-! ## 4. Databases -/

/-- Whether a database lets a row through a formula: it must be true, and not unknown. -/
def lets (e : Engine) (f : Formula) (row : Value) : Bool :=
  match row with
  | .object fields => f.truth e fields == some true
  | _ => false

theorem reads_lets (e : Engine) (condition : Condition) (row : Fields) :
    condition.reads (lets e) (.object row) = (condition.truth e row == some true) := by
  cases condition with
  | formula f => rfl
  | const b => cases b <;> rfl

/-- A database reads the condition of a filter as the evaluator reads the filter, on every row where
    the filter is known. -/
theorem reads_condition {e : Engine} (std : e.Standard) {scope : Scope} {p : Part} {row : Fields}
    (h : ∀ t ∈ p.tests, t.Comparable row) (hknown : p.truth row ≠ none) {b : Bool}
    (hb : Predicate.holds (M := Except Error) scope (.object row) (.test p.operand) = .ok b) :
    p.condition.reads (lets e) (.object row) = b := by
  rw [p.holds_eq] at hb
  obtain rfl := Except.ok.inj hb
  rw [reads_lets, p.truth_condition std h]
  cases htruth : p.truth row with
  | none => exact absurd htruth hknown
  | some a =>
    rw [← p.agrees a htruth]
    cases a <;> rfl

/-- The filter `select("k").eq("a")`. -/
def kindA : Part := .chain (.test ⟨"k", .eq, [.value (.string "a")]⟩)

/-- The queue `distinct().filter(kindA).limit(2).count()`. -/
def countedA : List (Entry (Except Error)) :=
  [.distinct, .filter (.test kindA.operand), .limit (.literal (.count 2)), .count]

/-- Three rows of two kinds. -/
def threeRows : List Value :=
  [.object [("k", .string "a")], .object [("k", .string "b")], .object [("k", .string "a")]]

/-- A filter after `distinct`, on three rows of which two are equal. -/
theorem finish_countedA :
    ∃ q, planStream [] countedA = .ok q ∧ AllObjects threeRows ∧
      threeRows.length < 0x8000000000000000 ∧ Faithful [] (lets plainEngine) threeRows countedA ∧
      evaluate [] (.array threeRows) countedA = .ok (.count 1) ∧
      (do q.finish [] (← q.answer (lets plainEngine) threeRows)) = .ok (.count 1) := by
  have hrow : ∀ row ∈ threeRows, ∃ s, row = .object [("k", .string s)] := by
    simp [threeRows]
  have hobjects : AllObjects threeRows := fun row hmem => by
    obtain ⟨s, rfl⟩ := hrow row hmem
    exact ⟨_, rfl⟩
  have hfaithful : Faithful [] (lets plainEngine) threeRows countedA := by
    intro condition hcompile
    rw [kindA.compile_eq] at hcompile
    obtain rfl := Except.ok.inj hcompile
    refine ⟨fun row hmem b hb => ?_, trivial⟩
    obtain ⟨s, rfl⟩ := hrow row hmem
    have hcolumn : columnOf [("k", .string s)] "k" = .string s := rfl
    refine reads_condition plainEngine_standard ?_ ?_ hb
    · intro t ht
      obtain rfl := List.mem_singleton.mp ht
      intro side hside
      obtain rfl := List.mem_singleton.mp hside
      exact Or.inr (Or.inr (Or.inr ⟨_, _, hcolumn, rfl⟩))
    · refine kindA.known_of_notNull (fun t ht => ?_)
      obtain rfl := List.mem_singleton.mp ht
      exact ⟨rfl, fun name hname => by cases List.mem_singleton.mp hname⟩
  have hplan : ∃ q, planStream [] countedA = .ok q := by
    obtain ⟨f, hf⟩ : ∃ f, kindA.condition = .formula f := ⟨_, rfl⟩
    simp [countedA, planStream, planFrom, kindA.compile_eq, hf, Operand.resolve, Value.asDouble,
      Value.count]
  have heval : evaluate [] (.array threeRows) countedA = .ok (.count 1) := by
    have hdistinct : Value.distinctFrom [] threeRows
        = [.object [("k", .string "a")], .object [("k", .string "b")]] := by
      simp [threeRows, Value.distinctFrom, Value.fingerprint, Value.json, Value.jsonFields, Json.quote,
        Json.escapeChar]
    have hloose : ∀ s, (Value.string s).looseEq (.string "a") = (s == "a") := fun s => by
      simp [Value.looseEq]
    have haccepts : ∀ s, kindA.accepts [("k", .string s)] = (s == "a") :=
      fun s => (Bool.or_false _).trans (hloose s)
    have htruncate : (Number.ofCount 2).toDouble.truncate = 2 := by decide +kernel
    simp [evaluate, countedA, Entry.apply, Operand.resolve, Value.asArray, Value.asInteger,
      Value.asDouble, Value.count, hdistinct, filterM_cons, filterM_nil, kindA.holds_eq, haccepts,
      htruncate]
  obtain ⟨q, hq⟩ := hplan
  exact ⟨q, hq, hobjects, by decide, hfaithful, heval,
    finish_answer hq hobjects (by decide) hfaithful heval⟩

end Sql

end QueryAlgebra
