import QueryAlgebra.Proofs.KeyValue.Queries

/-!
# Queries that select

A selection is worked out twice when its documents are read and then deleted, and has to come to the
same documents: nothing that is not in the content may decide what it answers. A queue of filters,
`distinct` and limits comes to some of the documents that it is given, as they are and in their order.

* `Steady`: computations that change nothing and whose answer the content decides. Every read of a
  table is one (`readsAt_steady`), and so is a query when its tasks are.
* `Drops`: operations that drop documents and change none. What their pipeline answers is a sublist of
  the documents (`run_drops`).
-/

namespace QueryAlgebra

namespace KeyValue

/-! ## 1. Steady computations -/

/-- **A computation that changes nothing and whose answer the content decides;** and what it answers has
    a property. -/
def Steady {α : Type} (Q : α → Prop) (x : Session α) : Prop :=
  Gives Q x ∧ ∀ s s', Healthy s → Healthy s' → s'.content = s.content → (x.on s').1 = (x.on s).1

section Steady

variable {α β : Type} {Q : α → Prop} {m : Content}

theorem Reads.steady {x : Session α} {f : Snapshot α} (h : Reads x f)
    (hQ : ∀ m a, f m = .ok a → Q a) : Steady Q x :=
  ⟨h.gives hQ, fun s s' hs hs' hcontent => by rw [(h s hs).1, (h s' hs').1, hcontent]⟩

theorem closed_steady : Closed (M := Session) (fun _ => Steady) where
  pure h := ⟨Gives.pure h, fun _ _ _ _ _ => rfl⟩
  throw e := ⟨closed_gives.throw e, fun _ _ _ _ _ => rfl⟩
  bind {_ _ _ _ x f} hx hf := by
    refine ⟨hx.1.bind fun a ha => (hf a ha).1, fun s s' hs hs' hcontent => ?_⟩
    have hanswer := hx.2 s s' hs hs' hcontent
    have hkept := hx.1.1 s hs
    have hkept' := hx.1.1 s' hs'
    rw [Session.on_bind, Session.on_bind]
    rcases hon : x.on s with ⟨e | a, r⟩ <;> rcases hon' : x.on s' with ⟨e' | a', r'⟩ <;>
      rw [hon, hon'] at hanswer <;> rw [hon] at hkept <;> rw [hon'] at hkept'
    · cases hanswer
      rfl
    · cases hanswer
    · cases hanswer
    · cases hanswer
      have hQ := hx.1.2 s.content a ⟨s, hs, rfl, by rw [hon]⟩
      exact (hf a hQ).2 r r' hkept.healthy hkept'.healthy
        (hkept'.content.trans (hcontent.trans hkept.content.symm))

/-- What a steady computation answers on one session it answers on all of the same content. -/
theorem Leads.bind_steady {R : Except Error β → Content → Prop} {x : Session α}
    {f : α → Session β} (hx : Steady Q x) {a : α} (ha : Answers x m a) (hf : Leads R m (f a)) :
    Leads R m (x >>= f) := by
  obtain ⟨s₀, hs₀, rfl, hon₀⟩ := ha
  intro s hs hm
  have hanswer := hx.2 s₀ s hs₀ hs hm
  have hkept := hx.1.1 s hs
  rw [Session.on_bind]
  rcases hon : x.on s with ⟨r, s'⟩
  rw [hon, hon₀] at hanswer
  rw [hon] at hkept
  subst hanswer
  exact hf s' hkept.healthy (hkept.content.trans hm)

/-- **Reading a table is steady.** -/
theorem readsAt_steady (t : String) : ReadsAt (fun _ => Steady) Memory.store t where
  closed := closed_steady
  get key _ := (Reads.get key).steady fun _ _ _ => trivial
  scan start _ := (Reads.scan start).steady fun m entries hentries e he => by
    obtain rfl := Except.ok.inj hentries
    exact Content.prefix_of_mem_startingWith he

/-- A handle on any table is a steady operand, when its tasks are. -/
theorem steady_handle {handle : Handle (Table Session) Session}
    (hstore : handle.table.store = Memory.store)
    (htarget : Target.Tasks (Anyway fun _ => Steady) handle.target)
    (hentries : EntriesTasks (Anyway fun _ => Steady) handle.entries) :
    handle.toOperand.Tasks (Anyway fun _ => Steady) :=
  ReadsAt.handle (hstore ▸ readsAt_steady handle.table.name) htarget hentries

end Steady

/-! ## 2. Queues that drop documents -/

/-- The operation drops documents, and changes none. -/
def Drops : Entry Session → Prop
  | .filter _ | .distinct | .limit _ => True
  | _ => False

/-- The stage drops documents, and changes none. -/
def DropsStage : Stage Session → Prop
  | .filter _ | .distinct _ | .limit _ => True
  | .select _ | .pluck _ | .map _ => False

section Drop

variable {scope : Scope} {s : Memory}

theorem dropsStage_apply {stage next : Stage Session} {v : Value} {out : Option Value}
    (h : DropsStage stage) (hon : ((stage.apply scope v).on s).1 = .ok (next, out)) :
    DropsStage next ∧ ∀ w ∈ out, w = v := by
  cases stage with
  | filter predicate =>
    obtain ⟨passes, s', -, hnext⟩ := Session.ok_of_bind hon
    cases hnext
    refine ⟨trivial, fun w hw => ?_⟩
    cases passes
    · cases hw
    · exact (Option.some.inj hw).symm
  | distinct seen =>
    simp only [Stage.apply] at hon
    split at hon <;> cases hon
    · exact ⟨trivial, fun w hw => by cases hw⟩
    · exact ⟨trivial, fun w hw => (Option.some.inj hw).symm⟩
  | limit n =>
    cases n with
    | zero =>
      cases hon
      exact ⟨trivial, fun w hw => by cases hw⟩
    | succ n =>
      cases hon
      exact ⟨trivial, fun w hw => (Option.some.inj hw).symm⟩
  | select | pluck | map => exact h.elim

theorem applyStages_drops {stages next : List (Stage Session)} {v : Value} {out : Option Value}
    (h : ∀ stage ∈ stages, DropsStage stage)
    (hon : ((applyStages scope v stages).on s).1 = .ok (next, out)) :
    (∀ stage ∈ next, DropsStage stage) ∧ ∀ w ∈ out, w = v := by
  induction stages generalizing s next with
  | nil =>
    cases hon
    exact ⟨h, fun w hw => (Option.some.inj hw).symm⟩
  | cons stage stages ih =>
    obtain ⟨hstage, hstages⟩ := List.forall_mem_cons.mp h
    obtain ⟨⟨stage', kept⟩, s', hstep, hrest⟩ := Session.ok_of_bind hon
    obtain ⟨hnext, hkept⟩ := dropsStage_apply hstage hstep
    cases kept with
    | none =>
      cases hrest
      exact ⟨List.forall_mem_cons.mpr ⟨hnext, hstages⟩, fun w hw => by cases hw⟩
    | some w =>
      obtain rfl := hkept w rfl
      obtain ⟨⟨stages', out'⟩, s'', hthen, hpair⟩ := Session.ok_of_bind hrest
      cases hpair
      obtain ⟨hnexts, hout⟩ := ih hstages hthen
      exact ⟨List.forall_mem_cons.mpr ⟨hnext, hnexts⟩, hout⟩

/-- **What comes through the stages is some of what goes in,** in the same order. -/
theorem runStages_sublist {stages : List (Stage Session)} {docs out : List Value}
    (h : ∀ stage ∈ stages, DropsStage stage)
    (hon : ((runStages scope stages docs).on s).1 = .ok out) : out.Sublist docs := by
  induction docs generalizing s stages out with
  | nil =>
    cases hon
    exact List.Sublist.refl []
  | cons v docs ih =>
    obtain ⟨⟨next, kept⟩, s', hstep, hrest⟩ := Session.ok_of_bind hon
    obtain ⟨hnext, hkept⟩ := applyStages_drops h hstep
    obtain ⟨rest, s'', hrun, hout⟩ := Session.ok_of_bind hrest
    cases hout
    have hsub := ih hnext hrun
    cases kept with
    | none => exact hsub.cons v
    | some w =>
      obtain rfl := hkept w rfl
      exact hsub.cons_cons w

/-- A queue that drops documents becomes a pipeline of such stages, and leaves nothing to run. -/
theorem ofEntries_drops {entries : List (Entry Session)} {p : Pipeline Session}
    (h : ∀ entry ∈ entries, Drops entry)
    (hon : ((Pipeline.ofEntries scope entries).on s).1 = .ok p) :
    (∀ stage ∈ p.stages, DropsStage stage) ∧ p.rest = [] := by
  induction entries generalizing s p with
  | nil =>
    cases hon
    exact ⟨fun stage hstage => absurd hstage List.not_mem_nil, rfl⟩
  | cons entry entries ih =>
    obtain ⟨hentry, hentries⟩ := List.forall_mem_cons.mp h
    -- Whatever stage the operation becomes, the rest of the queue becomes what is behind it.
    have hcons : ∀ {s : Memory} (stage : Stage Session), DropsStage stage →
        ((do return (← Pipeline.ofEntries scope entries).cons stage : Session _).on s).1 = .ok p →
        (∀ stage ∈ p.stages, DropsStage stage) ∧ p.rest = [] := by
      intro s stage hstage hon
      obtain ⟨q, s', hq, hp⟩ := Session.ok_of_bind hon
      cases hp
      obtain ⟨hstages, hrest⟩ := ih hentries hq
      exact ⟨List.forall_mem_cons.mpr ⟨hstage, hstages⟩, hrest⟩
    cases entry with
    | filter predicate => exact hcons (.filter predicate) trivial hon
    | distinct => exact hcons (.distinct []) trivial hon
    | limit n =>
      obtain ⟨v, s', -, hnumber⟩ := Session.ok_of_bind hon
      obtain ⟨d, s'', -, hthen⟩ := Session.ok_of_bind hnumber
      exact hcons (.limit d.toWord) trivial hthen
    | _ => exact hentry.elim

/-- **Running a queue that drops documents answers some of the documents.** -/
theorem run_drops {p : Pipeline Session} (hstages : ∀ stage ∈ p.stages, DropsStage stage)
    (hrest : p.rest = []) {docs : List Value} {v : Value}
    (hon : ((p.run scope docs).on s).1 = .ok v) : ∃ out, v = .array out ∧ out.Sublist docs := by
  obtain ⟨out, s', hrun, hv⟩ := Session.ok_of_bind hon
  rw [hrest] at hv
  cases hv
  exact ⟨out, rfl, runStages_sublist hstages hrun⟩

end Drop

end KeyValue

end QueryAlgebra
