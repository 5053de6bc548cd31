import QueryAlgebra.KeyValue.Pipeline
import QueryAlgebra.Proofs.Query.Rows

/-!
# A pipeline answers what the evaluator answers

The pipeline sends one document after another through all stages, the evaluator applies one
operation after another to all documents. Both see the same documents at every stage, so one
succeeds exactly when the other does, and then the answers agree (`run_ofEntries_eq_ok_iff`). Only
the error may differ: it is the first in another order.

* `runStages_cons`: the stages of a pipeline can be run one after another over all documents. This
  is where the two orders meet; a stage's memory (what `distinct` has seen, what a limit has left)
  is carried through the documents on both sides.
* `runStages_select` … `runStages_map`: what one stage does to all documents is the list operation
  that the evaluator applies.
* `BecomesStage`: an operation at the beginning of a queue and the stage it becomes.
-/

namespace QueryAlgebra

namespace KeyValue

attribute [local simp] runStages applyStages Stage.apply Pipeline.ofEntries Entry.apply

/-! ## 1. One stage after another -/

section Stages

variable (scope : Scope)

/-- Without stages all documents come through. -/
theorem runStages_nil {M : Type → Type} [Monad M] [MonadExceptOf Error M] [LawfulMonad M]
    (docs : List Value) : runStages (M := M) scope [] docs = pure docs := by
  induction docs with
  | nil => rfl
  | cons v docs ih => simp [ih]

/-- One document through a single stage. -/
theorem runStages_singleton_cons (stage : Stage (Except Error)) (v : Value) (docs out : List Value) :
    runStages scope [stage] (v :: docs) = .ok out ↔
      ∃ next kept rest, stage.apply scope v = .ok (next, kept) ∧
        runStages scope [next] docs = .ok rest ∧ out = kept.toList ++ rest := by
  simp only [runStages, applyStages, bind_eq_ok, pure_eq_ok]
  constructor
  · rintro ⟨⟨stages, o⟩, ⟨⟨next, kept⟩, happ, hkept⟩, rest, hrest, rfl⟩
    cases kept with
    | none =>
      obtain ⟨rfl, rfl⟩ := Prod.mk.inj (pure_eq_ok.mp hkept)
      exact ⟨next, none, rest, happ, hrest, rfl⟩
    | some w =>
      obtain ⟨rfl, rfl⟩ := Prod.mk.inj (pure_eq_ok.mp hkept)
      exact ⟨next, some w, rest, happ, hrest, rfl⟩
  · rintro ⟨next, kept, rest, happ, hrest, rfl⟩
    refine ⟨([next], kept), ⟨(next, kept), happ, ?_⟩, rest, hrest, rfl⟩
    cases kept <;> rfl

/-- One document through a stage and those after it. -/
theorem runStages_cons_cons (stage : Stage (Except Error)) (stages : List (Stage (Except Error)))
    (v : Value) (docs out : List Value) :
    runStages scope (stage :: stages) (v :: docs) = .ok out ↔
      ∃ next kept, stage.apply scope v = .ok (next, kept) ∧
        match kept with
        | none => runStages scope (next :: stages) docs = .ok out
        | some w => ∃ stages' o rest, applyStages scope w stages = .ok (stages', o) ∧
            runStages scope (next :: stages') docs = .ok rest ∧ out = o.toList ++ rest := by
  simp only [runStages, applyStages, bind_eq_ok]
  constructor
  · rintro ⟨⟨all, o⟩, ⟨⟨next, kept⟩, happ, hkept⟩, rest, hrest, hout⟩
    refine ⟨next, kept, happ, ?_⟩
    cases kept with
    | none =>
      obtain ⟨rfl, rfl⟩ := Prod.mk.inj (pure_eq_ok.mp hkept)
      have e : rest = out := by simpa using hout
      exact e ▸ hrest
    | some w =>
      obtain ⟨⟨stages', o'⟩, hw, hpair⟩ := bind_eq_ok.mp hkept
      obtain ⟨rfl, rfl⟩ := Prod.mk.inj (pure_eq_ok.mp hpair)
      exact ⟨stages', o', rest, hw, hrest, (pure_eq_ok.mp hout).symm⟩
  · rintro ⟨next, kept, happ, h⟩
    cases kept with
    | none => exact ⟨(next :: stages, none), ⟨(next, none), happ, rfl⟩, out, h, rfl⟩
    | some w =>
      obtain ⟨stages', o, rest, hw, hrest, rfl⟩ := h
      refine ⟨(next :: stages', o), ⟨(next, some w), happ, ?_⟩, rest, hrest, rfl⟩
      exact bind_eq_ok.mpr ⟨(stages', o), hw, rfl⟩

/-- **Stages may be run one after another over all documents.** The induction is on the documents,
    for every state of the stages. -/
theorem runStages_cons (stage : Stage (Except Error)) (stages : List (Stage (Except Error)))
    (docs out : List Value) :
    runStages scope (stage :: stages) docs = .ok out ↔
      ∃ mid, runStages scope [stage] docs = .ok mid ∧ runStages scope stages mid = .ok out := by
  induction docs generalizing stage stages out with
  | nil => simp
  | cons v docs ih =>
    rw [runStages_cons_cons]
    simp only [runStages_singleton_cons]
    constructor
    · rintro ⟨next, kept, happ, h⟩
      cases kept with
      | none =>
        obtain ⟨mid, hmid, hout⟩ := (ih next stages out).mp h
        exact ⟨mid, ⟨next, none, mid, happ, hmid, rfl⟩, hout⟩
      | some w =>
        obtain ⟨stages', o, rest, hw, hrest, rfl⟩ := h
        obtain ⟨mid, hmid, hout⟩ := (ih next stages' rest).mp hrest
        refine ⟨w :: mid, ⟨next, some w, mid, happ, hmid, rfl⟩, ?_⟩
        exact bind_eq_ok.mpr ⟨(stages', o), hw, bind_eq_ok.mpr ⟨rest, hout, rfl⟩⟩
    · rintro ⟨_, ⟨next, kept, mid, happ, hmid, rfl⟩, hout⟩
      refine ⟨next, kept, happ, ?_⟩
      cases kept with
      | none => exact (ih next stages out).mpr ⟨mid, hmid, hout⟩
      | some w =>
        obtain ⟨⟨stages', o⟩, hw, hrest⟩ := bind_eq_ok.mp hout
        obtain ⟨rest, hrest, hpair⟩ := bind_eq_ok.mp hrest
        exact ⟨stages', o, rest, hw, (ih next stages' rest).mpr ⟨mid, hmid, hrest⟩,
          (pure_eq_ok.mp hpair).symm⟩

end Stages

/-! ## 2. One stage over all documents -/

section Single

variable (scope : Scope)

theorem select_string (name : String) (v : Value) :
    v.select (.string name) = .ok (v.field name) := by
  cases v <;> simp [Value.select, Value.field]

theorem fieldOfItems_eq_map (name : String) (items : List Value) :
    Value.fieldOfItems name items = items.map (Value.field name) := by
  induction items with
  | nil => rfl
  | cons v items ih => simp [Value.fieldOfItems, ih]

theorem runStages_select (name : String) (docs : List Value) :
    runStages (M := Except Error) scope [.select (.string name)] docs
      = .ok (docs.map (Value.field name)) := by
  induction docs with
  | nil => rfl
  | cons v docs ih =>
    simp only [runStages, applyStages, Stage.apply, select_string]
    simp [ih]

theorem runStages_filter (predicate : Predicate (Except Error)) (docs : List Value) :
    runStages scope [.filter predicate] docs
      = docs.filterM (fun v => predicate.holds scope v) := by
  induction docs with
  | nil => rw [filterM_nil]; rfl
  | cons v docs ih =>
    rw [filterM_cons, ← ih]
    simp only [runStages, applyStages, Stage.apply, bind_assoc]
    congr 1
    funext b
    cases b <;> simp

theorem runStages_distinct (seen : List String) (docs : List Value) :
    runStages (M := Except Error) scope [.distinct seen] docs
      = .ok (Value.distinctFrom seen docs) := by
  induction docs generalizing seen with
  | nil => rfl
  | cons v docs ih =>
    by_cases h : v.fingerprint ∈ seen
    · simp [Value.distinctFrom, h, ih]
    · simp [Value.distinctFrom, h, ih]

theorem runStages_limit (n : Nat) (docs : List Value) :
    runStages (M := Except Error) scope [.limit n] docs = .ok (docs.take n) := by
  induction docs generalizing n with
  | nil => simp
  | cons v docs ih =>
    cases n with
    | zero => simp [ih]
    | succ n => simp [ih]

theorem runStages_pluck (names : List String) (docs : List Value) :
    runStages (M := Except Error) scope [.pluck names] docs
      = docs.mapM (Value.pluck names "pluck") := by
  induction docs with
  | nil => rfl
  | cons v docs ih =>
    rw [List.mapM_cons, ← ih]
    simp

theorem runStages_map (body : Operand (Except Error)) (docs : List Value) :
    runStages scope [.map body] docs = docs.mapM (fun v => body.resolve (.value v :: scope)) := by
  induction docs with
  | nil => rfl
  | cons v docs ih =>
    rw [List.mapM_cons, ← ih]
    simp

/-- A stage never makes more documents than it is given. -/
theorem length_le_of_runStages {stage : Stage (Except Error)} {docs out : List Value}
    (h : runStages scope [stage] docs = .ok out) : out.length ≤ docs.length := by
  induction docs generalizing stage out with
  | nil => cases h; exact Nat.le_refl 0
  | cons v docs ih =>
    obtain ⟨next, kept, rest, -, hrest, rfl⟩ := (runStages_singleton_cons scope stage v docs out).mp h
    have hlen := ih hrest
    cases kept <;> simp <;> omega

end Single

/-! ## 3. Queues -/

/-- Every selector among the operations that become stages is a field name. -/
def SelectsByName (scope : Scope) : List (Entry (Except Error)) → Prop
  | .select selector :: rest =>
    (∃ name, selector.resolve scope = .ok (.string name)) ∧ SelectsByName scope rest
  | .filter _ :: rest | .distinct :: rest | .limit _ :: rest | .pluck _ :: rest | .map _ :: rest =>
    SelectsByName scope rest
  | _ => True

section Queues

variable {scope : Scope}

/-- What an operation at the beginning of a queue does to an array is what its stage does to the
    documents. -/
structure BecomesStage (scope : Scope) (entry : Entry (Except Error))
    (rest : List (Entry (Except Error)))
    (stage : Except Error (Stage (Except Error))) : Prop where
  /-- The compiler makes the stage. -/
  compiled : Pipeline.ofEntries scope (entry :: rest)
    = (do let s ← stage; return (← Pipeline.ofEntries scope rest).cons s)
  /-- The evaluator does what the stage does. -/
  applied : ∀ docs w, docs.length < 0x8000000000000000 →
    (entry.apply scope (.array docs) = .ok w ↔
      ∃ s out, stage = .ok s ∧ runStages scope [s] docs = .ok out ∧ w = .array out)

theorem run_cons (stage : Stage (Except Error)) (p : Pipeline (Except Error)) (docs : List Value)
    (v : Value) :
    (p.cons stage).run scope docs = .ok v ↔
      ∃ mid, runStages scope [stage] docs = .ok mid ∧ p.run scope mid = .ok v := by
  simp only [Pipeline.run, Pipeline.cons, bind_eq_ok]
  constructor
  · rintro ⟨out, hout, hv⟩
    obtain ⟨mid, hmid, hrest⟩ := (runStages_cons scope stage p.stages docs out).mp hout
    exact ⟨mid, hmid, out, hrest, hv⟩
  · rintro ⟨mid, hmid, out, hrest, hv⟩
    exact ⟨out, (runStages_cons scope stage p.stages docs out).mpr ⟨mid, hmid, hrest⟩, hv⟩

/-- One operation that becomes a stage keeps the agreement. -/
theorem BecomesStage.step {entry : Entry (Except Error)} {rest : List (Entry (Except Error))}
    {stage : Except Error (Stage (Except Error))} (hs : BecomesStage scope entry rest stage)
    {docs : List Value} {v : Value} (hlen : docs.length < 0x8000000000000000)
    (ih : ∀ mid : List Value, mid.length < 0x8000000000000000 →
      ((∃ p, Pipeline.ofEntries scope rest = .ok p ∧ p.run scope mid = .ok v) ↔
        evaluate scope (.array mid) rest = .ok v)) :
    (∃ p, Pipeline.ofEntries scope (entry :: rest) = .ok p ∧ p.run scope docs = .ok v) ↔
      evaluate scope (.array docs) (entry :: rest) = .ok v := by
  rw [evaluate, bind_eq_ok, hs.compiled]
  constructor
  · rintro ⟨p, hp, hrun⟩
    obtain ⟨s, hstage, hp⟩ := bind_eq_ok.mp hp
    obtain ⟨q, hof, hcons⟩ := bind_eq_ok.mp hp
    obtain rfl := pure_eq_ok.mp hcons
    obtain ⟨mid, hmid, hv⟩ := (run_cons s q docs v).mp hrun
    have hshort := length_le_of_runStages scope hmid
    exact ⟨.array mid, (hs.applied docs _ hlen).mpr ⟨s, mid, hstage, hmid, rfl⟩,
      (ih mid (by omega)).mp ⟨q, hof, hv⟩⟩
  · rintro ⟨w, happ, hv⟩
    obtain ⟨s, mid, hstage, hmid, rfl⟩ := (hs.applied docs w hlen).mp happ
    have hshort := length_le_of_runStages scope hmid
    obtain ⟨q, hof, hv⟩ := (ih mid (by omega)).mpr hv
    refine ⟨q.cons s, ?_, (run_cons s q docs v).mpr ⟨mid, hmid, hv⟩⟩
    exact bind_eq_ok.mpr ⟨s, hstage, bind_eq_ok.mpr ⟨q, hof, rfl⟩⟩

variable (rest : List (Entry (Except Error)))

theorem select_becomesStage {selector : Operand (Except Error)} {name : String}
    (h : selector.resolve scope = .ok (.string name)) :
    BecomesStage scope (.select selector) rest (.ok (.select (.string name))) where
  compiled := by simp [h]
  applied docs w _ := by
    simp [h, runStages_select, Value.select, Value.field, fieldOfItems_eq_map, eq_comm]

theorem filter_becomesStage (predicate : Predicate (Except Error)) :
    BecomesStage scope (.filter predicate) rest (.ok (.filter predicate)) where
  compiled := by simp
  applied docs w _ := by
    simp [Value.asArray, runStages_filter, map_eq_ok, eq_comm (b := w)]

theorem distinct_becomesStage : BecomesStage scope .distinct rest (.ok (.distinct [])) where
  compiled := by simp
  applied docs w _ := by
    simp [Value.asArray, runStages_distinct, eq_comm]

theorem limit_becomesStage (n : Operand (Except Error)) :
    BecomesStage scope (.limit n) rest
      (do return .limit (← (← n.resolve scope).asDouble "limit").toWord) where
  compiled := by simp
  applied docs w hlen := by
    simp only [Entry.apply, Value.asArray, Value.asInteger, ofOutcome_self, ok_bind, bind_eq_ok,
      pure_eq_ok]
    constructor
    · rintro ⟨k, hk, i, ⟨d, hd, rfl⟩, rfl⟩
      refine ⟨_, _, ⟨k, hk, d, hd, rfl⟩, runStages_limit scope _ docs, ?_⟩
      rw [take_truncate d hlen]
    · rintro ⟨s, out, ⟨k, hk, d, hd, rfl⟩, hout, rfl⟩
      refine ⟨k, hk, _, ⟨d, hd, rfl⟩, ?_⟩
      rw [runStages_limit] at hout
      rw [take_truncate d hlen, Except.ok.inj hout]

theorem pluck_becomesStage (names : List (Operand (Except Error))) :
    BecomesStage scope (.pluck names) rest
      (do return .pluck (← fieldNames scope "pluck" names)) where
  compiled := by simp
  applied docs w _ := by
    simp only [Entry.apply, Value.asArray, fieldNames, ofOutcome_self, ok_bind, bind_eq_ok,
      pure_eq_ok]
    constructor
    · rintro ⟨values, hvalues, ns, hns, out, hout, rfl⟩
      exact ⟨_, out, ⟨ns, ⟨values, hvalues, hns⟩, rfl⟩, runStages_pluck scope ns docs ▸ hout, rfl⟩
    · rintro ⟨s, out, ⟨ns, ⟨values, hvalues, hns⟩, rfl⟩, hout, rfl⟩
      exact ⟨values, hvalues, ns, hns, out, runStages_pluck scope ns docs ▸ hout, rfl⟩

theorem map_becomesStage (body : Operand (Except Error)) :
    BecomesStage scope (.map body) rest (.ok (.map body)) where
  compiled := by simp
  applied docs w _ := by
    simp [Value.asArray, runStages_map, map_eq_ok, eq_comm (b := w)]

/-- An operation that becomes no stage, and all after it, run on the documents as they come. -/
theorem rest_only {entries : List (Entry (Except Error))}
    (h : Pipeline.ofEntries scope entries = .ok ⟨[], entries⟩) (docs : List Value) (v : Value) :
    (∃ p, Pipeline.ofEntries scope entries = .ok p ∧ p.run scope docs = .ok v) ↔
      evaluate scope (.array docs) entries = .ok v := by
  rw [h]
  simp [Pipeline.run, runStages_nil]

/-- The agreement for every queue, by induction along the operations that become stages. -/
theorem ofEntries_run_iff {entries : List (Entry (Except Error))} (hsel : SelectsByName scope entries)
    {docs : List Value} (hlen : docs.length < 0x8000000000000000) (v : Value) :
    (∃ p, Pipeline.ofEntries scope entries = .ok p ∧ p.run scope docs = .ok v) ↔
      evaluate scope (.array docs) entries = .ok v := by
  induction entries generalizing docs with
  | nil => exact rest_only rfl docs v
  | cons entry rest ih =>
    cases entry with
    | select selector =>
      obtain ⟨⟨name, hname⟩, hrest⟩ := hsel
      exact (select_becomesStage rest hname).step hlen (fun _ hmid => ih hrest hmid)
    | filter predicate =>
      exact (filter_becomesStage rest predicate).step hlen (fun _ hmid => ih hsel hmid)
    | distinct => exact (distinct_becomesStage rest).step hlen (fun _ hmid => ih hsel hmid)
    | limit n => exact (limit_becomesStage rest n).step hlen (fun _ hmid => ih hsel hmid)
    | pluck names => exact (pluck_becomesStage rest names).step hlen (fun _ hmid => ih hsel hmid)
    | map body => exact (map_becomesStage rest body).step hlen (fun _ hmid => ih hsel hmid)
    | _ => exact rest_only rfl docs v

/-- **A pipeline answers what the evaluator answers.** For every queue whose stages select by field
    name and every list of fewer than `2^63` documents, compiling the queue and running it succeeds
    exactly when evaluating the queue on the array of the documents does, with the same value. -/
theorem run_ofEntries_eq_ok_iff {entries : List (Entry (Except Error))}
    (hsel : SelectsByName scope entries) {docs : List Value}
    (hlen : docs.length < 0x8000000000000000) (v : Value) :
    (do (← Pipeline.ofEntries scope entries).run scope docs) = .ok v ↔
      evaluate scope (.array docs) entries = .ok v := by
  rw [bind_eq_ok]
  exact ofEntries_run_iff hsel hlen v

end Queues

/-- The queue `select("k").distinct().limit(2).count()`. -/
def countedKinds : List (Entry (Except Error)) :=
  [.select (.literal (.string "k")), .distinct, .limit (.literal (.count 2)), .count]

/-- Three documents of two kinds. -/
def kindRows : List Value :=
  [.object [("k", .string "a")], .object [("k", .string "b")], .object [("k", .string "a")]]

theorem run_countedKinds :
    SelectsByName [] countedKinds ∧ kindRows.length < 0x8000000000000000 ∧
      evaluate [] (.array kindRows) countedKinds = .ok (.count 2) ∧
      (do (← Pipeline.ofEntries [] countedKinds).run [] kindRows) = .ok (.count 2) := by
  have hsel : SelectsByName [] countedKinds := ⟨⟨"k", by simp [Operand.resolve]⟩, trivial⟩
  have hdistinct : Value.distinctFrom [] [.string "a", .string "b", .string "a"]
      = [.string "a", .string "b"] := by
    simp [Value.distinctFrom, Value.fingerprint, Value.json, Json.quote, Json.escapeChar]
  have htruncate : (Number.ofCount 2).toDouble.truncate = 2 := by decide +kernel
  have heval : evaluate [] (.array kindRows) countedKinds = .ok (.count 2) := by
    simp [evaluate, countedKinds, kindRows, Operand.resolve, Value.asArray, Value.select,
      Value.field, Value.fieldOfItems, Fields.get?, Value.asInteger, Value.asDouble, Value.count,
      hdistinct, htruncate]
  exact ⟨hsel, by decide, heval, (run_ofEntries_eq_ok_iff hsel (by decide) (.count 2)).mpr heval⟩

end KeyValue

end QueryAlgebra
