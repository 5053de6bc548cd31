import Mathlib.Tactic.Common
import QueryAlgebra.Query.Evaluate

/-!
# Outcomes

How a computation that may fail is taken apart: a sequence succeeds when its parts do, one after the
other. The tests of a list are the tests of its items in order (`filterM_cons`), so that what holds
of a filter is an induction on the list. A computation on a state runs its parts one after another on
the states that they leave (`Stateful.on_bind`), and so does a list of computations
(`Stateful.on_mapM_cons`), which is split at any of its items (`Stateful.on_mapM_split`).
-/

namespace QueryAlgebra

/-! ## 1. Sequences -/

theorem bind_eq_ok {α β : Type} {x : Except Error α} {f : α → Except Error β} {b : β} :
    (x >>= f) = .ok b ↔ ∃ a, x = .ok a ∧ f a = .ok b := by
  cases x with
  | error e => simp [bind, Except.bind]
  | ok a => simp [bind, Except.bind]

theorem bind_eq_error {α β : Type} {x : Except Error α} {f : α → Except Error β} {e : Error} :
    (x >>= f) = .error e ↔ x = .error e ∨ ∃ a, x = .ok a ∧ f a = .error e := by
  cases x with
  | error e => simp [bind, Except.bind]
  | ok a => simp [bind, Except.bind]

@[simp] theorem ok_bind {α β : Type} (a : α) (f : α → Except Error β) :
    ((.ok a : Except Error α) >>= f) = f a := rfl

@[simp] theorem pure_eq_ok {α : Type} {a b : α} :
    (pure a : Except Error α) = .ok b ↔ a = b := by
  simp [pure, Except.pure]

theorem map_eq_ok {α β : Type} {x : Except Error α} {f : α → β} {b : β} :
    f <$> x = .ok b ↔ ∃ a, x = .ok a ∧ f a = b := by
  cases x with
  | error e => simp [Functor.map, Except.map]
  | ok a => simp

theorem ok_of_toOption {α : Type} {x : Except Error α} {a : α} (h : x.toOption = some a) :
    x = .ok a := by
  cases x with
  | error e => cases h
  | ok b => exact congrArg Except.ok (Option.some.inj h)

@[simp] theorem throw_ne_ok {α : Type} {e : Error} {b : α} :
    (throw e : Except Error α) = .ok b ↔ False := by
  simp [throw, throwThe, MonadExceptOf.throw]

@[simp] theorem ofOutcome_self {α : Type} (x : Except Error α) :
    (ofOutcome x : Except Error α) = x := by
  cases x <;> rfl

/-- A list of images is read item by item. -/
theorem mapM_map_eq_ok {α β γ : Type} {f : α → β} {g : β → Except Error γ} {k : α → γ}
    {as : List α} (h : ∀ a ∈ as, g (f a) = .ok (k a)) : (as.map f).mapM g = .ok (as.map k) := by
  induction as with
  | nil => rfl
  | cons a as ih =>
    obtain ⟨ha, has⟩ := List.forall_mem_cons.mp h
    rw [List.map_cons, List.mapM_cons, ha, ih has]
    rfl

/-- A list that is read in one way is read in another that answers images. -/
theorem mapM_eq_ok_map {α β γ : Type} {f : α → Except Error β} {g : α → Except Error γ} {k : β → γ}
    (h : ∀ a b, f a = .ok b → g a = .ok (k b)) {as : List α} {bs : List β}
    (hbs : as.mapM f = .ok bs) : as.mapM g = .ok (bs.map k) := by
  induction as generalizing bs with
  | nil =>
    cases hbs
    rfl
  | cons a as ih =>
    rw [List.mapM_cons] at hbs ⊢
    obtain ⟨b, hb, hbs⟩ := bind_eq_ok.mp hbs
    obtain ⟨rest, hrest, hbs⟩ := bind_eq_ok.mp hbs
    cases hbs
    rw [h a b hb, ih hrest]
    rfl

/-- A list without some items is read as the answers without theirs. -/
theorem mapM_filter_eq_ok {α β : Type} {f : α → Except Error β} {p : α → Bool} {q : β → Bool}
    {as : List α} {bs : List β} (hbs : as.mapM f = .ok bs)
    (h : ∀ a ∈ as, ∀ b, f a = .ok b → p a = q b) : (as.filter p).mapM f = .ok (bs.filter q) := by
  induction as generalizing bs with
  | nil =>
    cases hbs
    rfl
  | cons a as ih =>
    rw [List.mapM_cons] at hbs
    obtain ⟨b, hb, hbs⟩ := bind_eq_ok.mp hbs
    obtain ⟨rest, hrest, hbs⟩ := bind_eq_ok.mp hbs
    cases hbs
    obtain ⟨ha, has⟩ := List.forall_mem_cons.mp h
    rw [List.filter_cons, List.filter_cons, ha b hb]
    split
    · rw [List.mapM_cons, hb, ih hrest has]
      rfl
    · exact ih hrest has

/-- A list is read when every item is. -/
theorem exists_mapM_eq_ok_iff {α β : Type} {f : α → Except Error β} {as : List α} :
    (∃ bs, as.mapM f = .ok bs) ↔ ∀ a ∈ as, ∃ b, f a = .ok b := by
  induction as with
  | nil => exact ⟨fun _ a ha => absurd ha List.not_mem_nil, fun _ => ⟨[], rfl⟩⟩
  | cons a as ih =>
    rw [List.forall_mem_cons, ← ih, List.mapM_cons]
    constructor
    · rintro ⟨bs, hbs⟩
      obtain ⟨b, hb, hrest⟩ := bind_eq_ok.mp hbs
      obtain ⟨rest, hmapM, -⟩ := bind_eq_ok.mp hrest
      exact ⟨⟨b, hb⟩, rest, hmapM⟩
    · rintro ⟨⟨b, hb⟩, rest, hmapM⟩
      exact ⟨b :: rest, bind_eq_ok.mpr ⟨b, hb, bind_eq_ok.mpr ⟨rest, hmapM, rfl⟩⟩⟩

/-- A list is read, with what is known of the answers, when every item is. -/
theorem exists_mapM_eq_ok_with {α β γ : Type} {f : α → Except Error β} {g : β → γ} {k : α → γ}
    {as : List α} (h : ∀ a ∈ as, ∃ b, f a = .ok b ∧ g b = k a) :
    ∃ bs, as.mapM f = .ok bs ∧ bs.map g = as.map k := by
  induction as with
  | nil => exact ⟨[], rfl, rfl⟩
  | cons a as ih =>
    obtain ⟨⟨b, hb, hgb⟩, has⟩ := List.forall_mem_cons.mp h
    obtain ⟨bs, hbs, hmap⟩ := ih has
    refine ⟨b :: bs, ?_, by rw [List.map_cons, List.map_cons, hgb, hmap]⟩
    rw [List.mapM_cons, hb, hbs]
    rfl

/-- A list is read as one of the same length. -/
theorem length_of_mapM_eq_ok {α β : Type} {f : α → Except Error β} {as : List α} {bs : List β}
    (h : as.mapM f = .ok bs) : bs.length = as.length := by
  induction as generalizing bs with
  | nil =>
    cases h
    rfl
  | cons a as ih =>
    rw [List.mapM_cons] at h
    obtain ⟨b, -, h⟩ := bind_eq_ok.mp h
    obtain ⟨rest, hrest, h⟩ := bind_eq_ok.mp h
    cases h
    exact congrArg (· + 1) (ih hrest)

/-- A list is not read because an item is not. -/
theorem mapM_eq_error {α β : Type} {f : α → Except Error β} {as : List α} {e : Error}
    (h : as.mapM f = .error e) : ∃ a ∈ as, f a = .error e := by
  induction as with
  | nil => cases h
  | cons a as ih =>
    rw [List.mapM_cons] at h
    cases ha : f a with
    | error e' =>
      rw [ha] at h
      cases h
      exact ⟨a, List.mem_cons_self, ha⟩
    | ok b =>
      rw [ha, ok_bind] at h
      cases has : as.mapM f with
      | ok bs =>
        rw [has] at h
        cases h
      | error e' =>
        rw [has] at h
        cases h
        obtain ⟨x, hmem, hx⟩ := ih has
        exact ⟨x, List.mem_cons_of_mem _ hmem, hx⟩

/-! ## 2. Tests on lists -/

section Filter

variable {M : Type → Type} [Monad M] [LawfulMonad M] {α : Type}

theorem filterAuxM_eq (f : α → M Bool) (l acc : List α) :
    l.filterAuxM f acc = (do return (← l.filterAuxM f []) ++ acc) := by
  induction l generalizing acc with
  | nil => simp [List.filterAuxM]
  | cons a l ih =>
    simp only [List.filterAuxM, bind_assoc]
    congr 1
    funext b
    rw [ih (cond b (a :: acc) acc), ih (cond b [a] [])]
    cases b <;> simp

theorem filterM_cons (f : α → M Bool) (a : α) (l : List α) :
    (a :: l).filterM f = (do
      let b ← f a
      let rest ← l.filterM f
      return if b then a :: rest else rest) := by
  simp only [List.filterM, List.filterAuxM, bind_assoc]
  congr 1
  funext b
  rw [filterAuxM_eq]
  cases b <;> simp

theorem filterM_nil (f : α → M Bool) : ([] : List α).filterM f = pure [] := by
  simp [List.filterM, List.filterAuxM]

theorem filterM_pure_true (l : List α) : l.filterM (fun _ => (pure true : M Bool)) = pure l := by
  induction l with
  | nil => exact filterM_nil _
  | cons a l ih => simp [filterM_cons, ih]

end Filter

/-! ## 3. Computations on a state -/

/-- A computation that may fail, on a state that it changes. -/
abbrev Stateful (σ : Type) := ExceptT Error (StateM σ)

namespace Stateful

variable {σ α β : Type}

/-- The outcome of a computation on a state, and the state afterwards. -/
def on (x : Stateful σ α) (s : σ) : Except Error α × σ := x.run.run s

@[simp] theorem on_pure (a : α) (s : σ) : on (pure a) s = (.ok a, s) := rfl

@[simp] theorem on_throw (e : Error) (s : σ) : on (throw e : Stateful σ α) s = (.error e, s) := rfl

@[simp] theorem on_get (s : σ) : on (get : Stateful σ σ) s = (.ok s, s) := rfl

@[simp] theorem on_set (s s' : σ) : on (set s' : Stateful σ Unit) s = (.ok (), s') := rfl

theorem on_bind (x : Stateful σ α) (f : α → Stateful σ β) (s : σ) :
    on (x >>= f) s = match on x s with
      | (.ok a, s') => on (f a) s'
      | (.error e, s') => (.error e, s') := by
  unfold on ExceptT.run StateT.run
  simp only [bind, ExceptT.bind, ExceptT.mk, StateT.bind, ExceptT.bindCont]
  rcases x s with ⟨a | e, s'⟩ <;> rfl

theorem on_bind_of_ok {x : Stateful σ α} {f : α → Stateful σ β} {s : σ} {a : α}
    (h : (on x s).1 = .ok a) : on (x >>= f) s = on (f a) (on x s).2 := by
  rw [on_bind]
  rcases hon : on x s with ⟨e | a', s'⟩ <;> rw [hon] at h
  · cases h
  · obtain rfl := Except.ok.inj h
    rfl

theorem on_bind_of_error {x : Stateful σ α} {f : α → Stateful σ β} {s : σ} {e : Error}
    (h : (on x s).1 = .error e) : on (x >>= f) s = (.error e, (on x s).2) := by
  rw [on_bind]
  rcases hon : on x s with ⟨e' | a, s'⟩ <;> rw [hon] at h
  · obtain rfl := Except.error.inj h
    rfl
  · cases h

theorem on_tryCatch (x : Stateful σ α) (f : Error → Stateful σ α) (s : σ) :
    on (tryCatch x f) s = match on x s with
      | (.ok a, s') => (.ok a, s')
      | (.error e, s') => on (f e) s' := by
  unfold on ExceptT.run StateT.run
  simp only [tryCatch, tryCatchThe, MonadExceptOf.tryCatch, ExceptT.tryCatch, ExceptT.mk, bind,
    StateT.bind]
  rcases x s with ⟨a | e, s'⟩ <;> rfl

theorem on_ofOutcome (x : Except Error α) (s : σ) :
    on (ofOutcome x) s = (x, s) := by
  cases x <;> rfl

/-- What an attempt answers, failures included. -/
theorem on_attempt (x : Stateful σ α) (s : σ) :
    on (tryCatch (do return .ok (← x)) (fun e => pure (.error e)) : Stateful σ (Except Error α)) s
      = (.ok (on x s).1, (on x s).2) := by
  rw [on_tryCatch, on_bind]
  rcases on x s with ⟨e | a, s'⟩ <;> rfl

/-- A sequence on a state succeeds when its parts do, one after the other. -/
theorem on_bind_eq_ok {x : Stateful σ α} {f : α → Stateful σ β} {b : β} {s s' : σ} :
    on (x >>= f) s = (.ok b, s') ↔ ∃ a s₁, on x s = (.ok a, s₁) ∧ on (f a) s₁ = (.ok b, s') := by
  rw [on_bind]
  rcases on x s with ⟨e | a, s₁⟩ <;> simp

theorem on_ofOutcome_eq_ok {x : Except Error α} {a : α} {s s' : σ} :
    on (ofOutcome x) s = (.ok a, s') ↔ x = .ok a ∧ s = s' := by
  rw [on_ofOutcome, Prod.mk.injEq]

theorem on_pure_eq_ok {a b : α} {s s' : σ} :
    on (pure a : Stateful σ α) s = (.ok b, s') ↔ a = b ∧ s = s' := by
  rw [on_pure, Prod.mk.injEq, Except.ok.injEq]

/-- An answer that is read, or refused. -/
theorem on_bind_ofOutcome_eq_ok {x : Stateful σ α} {f : α → Except Error β} {b : β} {s s' : σ} :
    on (x >>= fun a => ofOutcome (f a)) s = (.ok b, s') ↔
      ∃ a, on x s = (.ok a, s') ∧ f a = .ok b := by
  simp only [on_bind_eq_ok, on_ofOutcome_eq_ok]
  constructor
  · intro ⟨a, s₁, ha, hb, hs⟩
    exact ⟨a, hs ▸ ha, hb⟩
  · intro ⟨a, ha, hb⟩
    exact ⟨a, s', ha, hb, rfl⟩

section Lists

variable {f : α → Stateful σ β} {as : List α} {bs : List β} {s s' : σ}

theorem on_mapM_nil : on (([] : List α).mapM f) s = (.ok bs, s') ↔ bs = [] ∧ s = s' := by
  rw [List.mapM_nil, on_pure_eq_ok, eq_comm]

theorem on_mapM_cons {a : α} : on ((a :: as).mapM f) s = (.ok bs, s') ↔
    ∃ b s₁ rest, on (f a) s = (.ok b, s₁) ∧ on (as.mapM f) s₁ = (.ok rest, s') ∧ bs = b :: rest := by
  simp only [List.mapM_cons, on_bind_eq_ok, on_pure_eq_ok]
  constructor
  · rintro ⟨b, s₁, hb, rest, s₂, hrest, rfl, rfl⟩
    exact ⟨b, s₁, rest, hb, hrest, rfl⟩
  · rintro ⟨b, s₁, rest, hb, hrest, rfl⟩
    exact ⟨b, s₁, hb, rest, s', hrest, rfl, rfl⟩

theorem on_mapM_ne_nil (h : on (as.mapM f) s = (.ok bs, s')) (hne : as ≠ []) : bs ≠ [] := by
  obtain ⟨a, rest, rfl⟩ := List.exists_cons_of_ne_nil hne
  obtain ⟨b, s₁, others, -, -, rfl⟩ := on_mapM_cons.mp h
  exact List.cons_ne_nil b others

/-- An answer of a list is the answer of one of its items, on some state. -/
theorem on_mapM_mem (h : on (as.mapM f) s = (.ok bs, s')) {b : β} (hb : b ∈ bs) :
    ∃ a ∈ as, ∃ s₁ s₂, on (f a) s₁ = (.ok b, s₂) := by
  induction as generalizing s bs with
  | nil =>
    obtain ⟨rfl, -⟩ := on_mapM_nil.mp h
    exact absurd hb List.not_mem_nil
  | cons a as ih =>
    obtain ⟨b', s₁, rest, hb', hrest, rfl⟩ := on_mapM_cons.mp h
    rcases List.mem_cons.mp hb with rfl | hb
    · exact ⟨a, List.mem_cons_self, s, s₁, hb'⟩
    · obtain ⟨a', ha', hon⟩ := ih hrest hb
      exact ⟨a', List.mem_cons_of_mem a ha', hon⟩

/-- A list is run up to one of its items, on the item, and behind it. -/
theorem on_mapM_split {left right : List α} {a : α} :
    on ((left ++ a :: right).mapM f) s = (.ok bs, s') ↔
      ∃ ls s₁ b s₂ rs, on (left.mapM f) s = (.ok ls, s₁) ∧ on (f a) s₁ = (.ok b, s₂) ∧
        on (right.mapM f) s₂ = (.ok rs, s') ∧ bs = ls ++ b :: rs := by
  induction left generalizing s bs with
  | nil =>
    simp only [List.nil_append, on_mapM_cons, on_mapM_nil]
    constructor
    · rintro ⟨b, s₂, rs, hb, hrs, rfl⟩
      exact ⟨[], s, b, s₂, rs, ⟨rfl, rfl⟩, hb, hrs, rfl⟩
    · rintro ⟨ls, s₁, b, s₂, rs, ⟨rfl, rfl⟩, hb, hrs, rfl⟩
      exact ⟨b, s₂, rs, hb, hrs, rfl⟩
  | cons first left ih =>
    simp only [List.cons_append, on_mapM_cons, ih]
    constructor
    · rintro ⟨x, s₁, -, hx, ⟨ls, s₂, b, s₃, rs, hls, hb, hrs, rfl⟩, rfl⟩
      exact ⟨x :: ls, s₂, b, s₃, rs, ⟨x, s₁, ls, hx, hls, rfl⟩, hb, hrs, rfl⟩
    · rintro ⟨-, s₂, b, s₃, rs, ⟨x, s₁, ls, hx, hls, rfl⟩, hb, hrs, rfl⟩
      exact ⟨x, s₁, _, hx, ⟨ls, s₂, b, s₃, rs, hls, hb, hrs, rfl⟩, rfl⟩

end Lists

end Stateful

end QueryAlgebra
