import QueryAlgebra.Proofs.Outcome

/-!
# Branches

A branch has a true action, pairs of test and action, and a false action. Its arguments stand in one
list: the tests at odd places, each before its action, and the false action at the end. Tests run in
order, each on the state that the one before has left, until one answers true; one action is run.

* `Reached`: a test is reached when the current value and all tests before it are not true.
* `Comes`: what a branch comes to, by the place of the argument that counts.
* `Reads`: the arguments that are run to come to it.
* `branch_comes`: a branch that is built answers what it comes to, whatever the arguments are that
  it does not read.
-/

namespace QueryAlgebra

/-! ## 1. The arguments that count -/

section Places

variable {σ : Type} (scope : Scope) (current : Value)

/-- What an argument comes to on a state. A function is called with the current value. -/
def BranchArg.outcome (s : σ) : BranchArg (Stateful σ) → Except Error Value × σ
  | .value op => Stateful.on (op.resolve scope) s
  | .call body => Stateful.on (body.resolve (.value current :: scope)) s

variable (args : List (BranchArg (Stateful σ))) (s : σ)

/-- **A test is reached, in a state:** the current value is not true, and neither is what the tests
    before it have answered, one after another. After all tests the last argument is reached. -/
inductive Reached : Nat → σ → Prop
  | start (h : current.truthy = false) : Reached 0 s
  | next {k : Nat} {s₁ s₂ : σ} {test : BranchArg (Stateful σ)} {v : Value} (h : Reached k s₁)
    (hpair : 2 * k + 2 < args.length) (htest : args[2 * k + 1]? = some test)
    (hv : test.outcome scope current s₁ = (.ok v, s₂)) (hfalse : v.truthy = false) :
    Reached (k + 1) s₂

/-- **What a branch comes to.** -/
inductive Comes : Except Error Value × σ → Prop
  /-- The current value is true: the first argument counts. -/
  | first {action : BranchArg (Stateful σ)} (h : current.truthy = true)
    (haction : args[0]? = some action) : Comes (action.outcome scope current s)
  /-- A test that is reached answers true: the action after it counts. -/
  | action {k : Nat} {s₁ s₂ : σ} {test action : BranchArg (Stateful σ)} {v : Value}
    (h : Reached scope current args s k s₁) (hpair : 2 * k + 2 < args.length)
    (htest : args[2 * k + 1]? = some test) (hv : test.outcome scope current s₁ = (.ok v, s₂))
    (htrue : v.truthy = true) (haction : args[2 * k + 2]? = some action) :
    Comes (action.outcome scope current s₂)
  /-- A test that is reached fails: so does the branch. -/
  | failed {k : Nat} {s₁ s₂ : σ} {test : BranchArg (Stateful σ)} {e : Error}
    (h : Reached scope current args s k s₁) (hpair : 2 * k + 2 < args.length)
    (htest : args[2 * k + 1]? = some test)
    (he : test.outcome scope current s₁ = (.error e, s₂)) : Comes (.error e, s₂)
  /-- No test answers true: the last argument counts. -/
  | last {k : Nat} {s₁ : σ} {otherwise : BranchArg (Stateful σ)}
    (h : Reached scope current args s k s₁) (hend : 2 * k + 2 = args.length)
    (hlast : args[2 * k + 1]? = some otherwise) : Comes (otherwise.outcome scope current s₁)

/-- **The places of the arguments that a branch reads:** the tests that are reached, and the argument
    that counts. -/
inductive Reads : Nat → Prop
  | first (h : current.truthy = true) : Reads 0
  | reached {k : Nat} {s₁ : σ} (h : Reached scope current args s k s₁) : Reads (2 * k + 1)
  | action {k : Nat} {s₁ s₂ : σ} {test : BranchArg (Stateful σ)} {v : Value}
    (h : Reached scope current args s k s₁) (hpair : 2 * k + 2 < args.length)
    (htest : args[2 * k + 1]? = some test) (hv : test.outcome scope current s₁ = (.ok v, s₂))
    (htrue : v.truthy = true) : Reads (2 * k + 2)

end Places

/-! ## 2. The run of a branch -/

section Runs

variable {σ : Type} {scope : Scope} {current : Value} {args : List (BranchArg (Stateful σ))}
variable {s s₁ : σ} {k : Nat}

theorem BranchArg.on_resolve (arg : BranchArg (Stateful σ)) :
    Stateful.on (arg.resolve scope current) s = arg.outcome scope current s := by
  cases arg <;> rw [BranchArg.resolve, outcome]

/-- The arguments from a test on that is followed by its action. There is more after these, since
    the number of arguments is even. -/
theorem drop_of_pair (heven : args.length % 2 = 0) (hpair : 2 * k + 2 < args.length)
    {test : BranchArg (Stateful σ)} (htest : args[2 * k + 1]? = some test) :
    ∃ action next rest, args[2 * k + 2]? = some action ∧
      args.drop (2 * k + 1) = test :: action :: next :: rest ∧
      args.drop (2 * (k + 1) + 1) = next :: rest := by
  have hnext : 2 * k + 3 < args.length := by omega
  obtain ⟨_, rfl⟩ := List.getElem?_eq_some_iff.mp htest
  refine ⟨args[2 * k + 2], args[2 * k + 3], args.drop (2 * k + 4),
    List.getElem?_eq_getElem hpair, ?_, List.drop_eq_getElem_cons hnext⟩
  rw [List.drop_eq_getElem_cons, List.drop_eq_getElem_cons hpair, List.drop_eq_getElem_cons hnext]

/-- A test and its action: the answer of the test decides, and its failure is the branch's. -/
theorem on_branchElse_pair {test action next : BranchArg (Stateful σ)}
    {rest : List (BranchArg (Stateful σ))} :
    Stateful.on (branchElse scope current (test :: action :: next :: rest)) s₁
      = match test.outcome scope current s₁ with
        | (.ok v, s₂) =>
          if v.truthy then action.outcome scope current s₂
          else Stateful.on (branchElse scope current (next :: rest)) s₂
        | (.error e, s₂) => (.error e, s₂) := by
  rw [branchElse, Stateful.on_bind, BranchArg.on_resolve]
  · rcases test.outcome scope current s₁ with ⟨e | v, s₂⟩
    · rfl
    · dsimp only
      split_ifs
      · exact action.on_resolve
      · rfl
  · simp

/-- **What is run once a test is reached** is the rest of the branch from that test on. -/
theorem on_apply_of_reached (heven : args.length % 2 = 0)
    (h : Reached scope current args s k s₁) (hk : 2 * k + 2 ≤ args.length) :
    Stateful.on ((Entry.branch args).apply scope current) s
      = Stateful.on (branchElse scope current (args.drop (2 * k + 1))) s₁ := by
  induction h with
  | start hfalse =>
    match args, hk with
    | action :: test :: rest, _ =>
      rw [Entry.apply, if_neg (by simp [hfalse])]
      · rfl
      · simp
  | next h hpair htest hv hfalse ih =>
    obtain ⟨action, next, rest, -, hdrop, hdrop'⟩ := drop_of_pair heven hpair htest
    rw [ih (by omega), hdrop, hdrop', on_branchElse_pair, hv]
    dsimp only
    rw [if_neg (by simp [hfalse])]

/-- **A branch answers what it comes to.** -/
theorem on_apply_of_comes (hlength : 2 ≤ args.length) (heven : args.length % 2 = 0)
    {r : Except Error Value × σ} (h : Comes scope current args s r) :
    Stateful.on ((Entry.branch args).apply scope current) s = r := by
  cases h with
  | first htrue haction =>
    match args, hlength, haction with
    | action :: test :: rest, _, rfl =>
      rw [Entry.apply, if_pos htrue]
      · exact action.on_resolve
      · simp
  | action h hpair htest hv htrue haction =>
    obtain ⟨action, next, rest, haction', hdrop, -⟩ := drop_of_pair heven hpair htest
    obtain rfl := Option.some.inj (haction'.symm.trans haction)
    rw [on_apply_of_reached heven h (by omega), hdrop, on_branchElse_pair, hv]
    exact if_pos htrue
  | failed h hpair htest he =>
    obtain ⟨action, next, rest, -, hdrop, -⟩ := drop_of_pair heven hpair htest
    rw [on_apply_of_reached heven h (by omega), hdrop, on_branchElse_pair, he]
  | last h hend hlast =>
    obtain ⟨hlt, rfl⟩ := List.getElem?_eq_some_iff.mp hlast
    have hnone := List.drop_eq_nil_of_le (Nat.le_of_eq hend.symm)
    rw [on_apply_of_reached heven h (Nat.le_of_eq hend), List.drop_eq_getElem_cons hlt, hnone, branchElse]
    exact BranchArg.on_resolve _

/-- From a test that is reached on, a branch comes to something: the tests are finitely many. -/
theorem exists_comes_of_reached {k : Nat} {s₁ : σ} (heven : args.length % 2 = 0)
    (h : Reached scope current args s k s₁) (hk : 2 * k + 2 ≤ args.length) :
    ∃ r, Comes scope current args s r := by
  have harg : args[2 * k + 1]? = some args[2 * k + 1] := List.getElem?_eq_getElem hk
  by_cases hpair : 2 * k + 2 < args.length
  · rcases hv : args[2 * k + 1].outcome scope current s₁ with ⟨e | v, s₂⟩
    · exact ⟨_, .failed h hpair harg hv⟩
    · cases htrue : v.truthy with
      | true => exact ⟨_, .action h hpair harg hv htrue (List.getElem?_eq_getElem hpair)⟩
      | false => exact exists_comes_of_reached heven (.next h hpair harg hv htrue) (by omega)
  · exact ⟨_, .last h (by omega) harg⟩
termination_by args.length - 2 * k

/-- **A branch comes to something.** -/
theorem exists_comes (hlength : 2 ≤ args.length) (heven : args.length % 2 = 0) :
    ∃ r, Comes scope current args s r := by
  cases htrue : current.truthy with
  | true => exact ⟨_, .first htrue (List.getElem?_eq_getElem (Nat.zero_lt_of_lt hlength))⟩
  | false => exact exists_comes_of_reached heven (.start htrue) (by omega)

end Runs

/-! ## 3. The arguments that do not count -/

section Unread

variable {σ : Type} {scope : Scope} {current : Value} {args args' : List (BranchArg (Stateful σ))}
variable {s : σ}

/-- Arguments that agree where they are read reach the same tests in the same states. -/
theorem Reached.of_agree (hlength : args'.length = args.length)
    (hagree : ∀ i, Reads scope current args s i → args'[i]? = args[i]?) {k : Nat} {s₁ : σ}
    (h : Reached scope current args s k s₁) : Reached scope current args' s k s₁ := by
  induction h with
  | start hfalse => exact .start hfalse
  | next h hpair htest hv hfalse ih =>
    exact .next ih (hlength ▸ hpair) ((hagree _ (.reached h)).trans htest) hv hfalse

/-- Arguments that agree where they are read come to the same. -/
theorem Comes.of_agree (hlength : args'.length = args.length)
    (hagree : ∀ i, Reads scope current args s i → args'[i]? = args[i]?)
    {r : Except Error Value × σ} (h : Comes scope current args s r) :
    Comes scope current args' s r := by
  cases h with
  | first htrue haction => exact .first htrue ((hagree _ (.first htrue)).trans haction)
  | action h hpair htest hv htrue haction =>
    exact .action (h.of_agree hlength hagree) (hlength ▸ hpair)
      ((hagree _ (.reached h)).trans htest) hv htrue
      ((hagree _ (.action h hpair htest hv htrue)).trans haction)
  | failed h hpair htest he =>
    exact .failed (h.of_agree hlength hagree) (hlength ▸ hpair)
      ((hagree _ (.reached h)).trans htest) he
  | last h hend hlast =>
    exact .last (h.of_agree hlength hagree) (hlength ▸ hend) ((hagree _ (.reached h)).trans hlast)

end Unread

/-! ## 4. Branches -/

theorem branchOf_eq_ok {M : Type → Type} {args : List (BranchArg M)} {entry : Entry M} :
    Entry.branchOf args = .ok entry ↔
      (2 ≤ args.length ∧ args.length % 2 = 0) ∧ .branch args = entry := by
  rw [Entry.branchOf]
  split_ifs with h
  · rw [false_iff]
    exact fun hbuilt => by omega
  · have hlength : 2 ≤ args.length ∧ args.length % 2 = 0 := by omega
    simp [hlength]

/-- **A branch that is built answers what it comes to,** on every state, and nothing else: the first
    argument when the current value is true, the action after the first test that answers true, or
    the last argument. Whatever stands at the places that it does not read, it is built and answers
    the same, on the same state. -/
theorem branch_comes {σ : Type} {args : List (BranchArg (Stateful σ))} {entry : Entry (Stateful σ)}
    (hbuilt : Entry.branchOf args = .ok entry) (scope : Scope) (current : Value) (s : σ) :
    (∀ r, Comes scope current args s r ↔ Stateful.on (entry.apply scope current) s = r) ∧
      ∀ args' : List (BranchArg (Stateful σ)), args'.length = args.length →
        (∀ i, Reads scope current args s i → args'[i]? = args[i]?) →
        ∃ entry', Entry.branchOf args' = .ok entry' ∧
          Stateful.on (entry'.apply scope current) s = Stateful.on (entry.apply scope current) s := by
  obtain ⟨⟨hlength, heven⟩, rfl⟩ := branchOf_eq_ok.mp hbuilt
  obtain ⟨r, hr⟩ : ∃ r, Comes scope current args s r := exists_comes hlength heven
  have hanswer := on_apply_of_comes hlength heven hr
  refine ⟨fun r' => ⟨on_apply_of_comes hlength heven, ?_⟩, fun args' hsame hagree => ?_⟩
  · rintro rfl
    exact hanswer ▸ hr
  · have hlength' : 2 ≤ args'.length := hsame ▸ hlength
    have heven' : args'.length % 2 = 0 := hsame ▸ heven
    refine ⟨_, branchOf_eq_ok.mpr ⟨⟨hlength', heven'⟩, rfl⟩, ?_⟩
    rw [hanswer, on_apply_of_comes hlength' heven' (hr.of_agree hsame hagree)]

/-- Two tests, of which the second answers true, and one argument at all places that are not read
    when the current value is not true. -/
def secondCounts (unread : BranchArg (Stateful Unit)) : List (BranchArg (Stateful Unit)) :=
  [unread, .value (.literal (.bool false)), unread,
    .value (.literal (.bool true)), .call (.node (.parameter 0) [.not]), unread]

/-- A task that fails. -/
def failingArg : BranchArg (Stateful Unit) :=
  .value (.task fun _ => throw (.argument "not to be run"))

theorem reached_secondCounts {unread : BranchArg (Stateful Unit)} {k : Nat} {s₁ : Unit}
    (h : Reached [] (.bool false) (secondCounts unread) () k s₁) : k ≤ 1 := by
  induction h with
  | start => exact Nat.zero_le 1
  | next h hpair htest hv hfalse ih =>
    rcases Nat.le_one_iff_eq_zero_or_eq_one.mp ih with rfl | rfl
    · exact Nat.le_refl 1
    -- The second test answers true, so no third is reached.
    · cases htest
      cases hv
      cases hfalse

/-- The second test answers true: its action is called with the current value, and answers the
    same with failing tasks at the places that are not read. -/
theorem branch_comes_secondCounts :
    Entry.branchOf (secondCounts (.value (.literal .null)))
        = .ok (.branch (secondCounts (.value (.literal .null)))) ∧
      Comes [] (.bool false) (secondCounts (.value (.literal .null))) () (.ok (.bool true), ()) ∧
      ∃ entry', Entry.branchOf (secondCounts failingArg) = .ok entry' ∧
        Stateful.on (entry'.apply [] (.bool false)) () = (.ok (.bool true), ()) := by
  have hbuilt : Entry.branchOf (secondCounts (.value (.literal .null)))
      = .ok (.branch (secondCounts (.value (.literal .null)))) := rfl
  obtain ⟨hcomes, hunread⟩ := branch_comes hbuilt [] (.bool false) ()
  refine ⟨hbuilt, (hcomes _).mpr rfl, hunread (secondCounts failingArg) rfl fun i hi => ?_⟩
  cases hi with
  | first htrue => cases htrue
  | reached h =>
    rcases Nat.le_one_iff_eq_zero_or_eq_one.mp (reached_secondCounts h) with rfl | rfl <;> rfl
  | action h hpair htest hv htrue =>
    rcases Nat.le_one_iff_eq_zero_or_eq_one.mp (reached_secondCounts h) with rfl | rfl
    · cases htest
      cases hv
      cases htrue
    · rfl

end QueryAlgebra
