import QueryAlgebra.Query.Evaluate

/-!
# Streams as pipelines

The operations at the beginning of a queue on a table that work document by document: selection,
filters, `distinct`, limits, projection, callbacks. Each becomes a stage that changes a document or
drops it; `distinct` remembers what it has seen and a limit counts down. The first other operation,
and all after it, are left to run on what comes out.
-/

namespace QueryAlgebra

namespace KeyValue

/-- A step that every document goes through. -/
inductive Stage (M : Type → Type) where
  /-- Narrows to a field or position. -/
  | select (selector : Value)
  /-- Drops what fails a test. -/
  | filter (predicate : Predicate M)
  /-- Drops what has been seen. -/
  | distinct (seen : List String)
  /-- Drops what comes when nothing remains. -/
  | limit (remaining : Nat)
  /-- Keeps named fields. -/
  | pluck (names : List String)
  /-- Applies a callback. -/
  | map (body : Operand M)

/-- A queue split into stages and the operations left. -/
structure Pipeline (M : Type → Type) where
  /-- The stages, in order. -/
  stages : List (Stage M)
  /-- The operations left. -/
  rest : List (Entry M)

variable {M : Type → Type} [Monad M] [MonadExceptOf Error M]

/-- The answer of a stage to a document: the stage afterwards, and the document unless it is
    dropped. -/
def Stage.apply (scope : Scope) (v : Value) : Stage M → M (Stage M × Option Value)
  | .select selector => do return (.select selector, some (← ofOutcome (v.select selector)))
  | .filter predicate => do
    return (.filter predicate, if ← predicate.holds scope v then some v else none)
  | .distinct seen =>
    if v.fingerprint ∈ seen then pure (.distinct seen, none)
    else pure (.distinct (v.fingerprint :: seen), some v)
  | .limit 0 => pure (.limit 0, none)
  | .limit (n + 1) => pure (.limit n, some v)
  | .pluck names => do return (.pluck names, some (← ofOutcome (v.pluck names "pluck")))
  | .map body => do return (.map body, some (← body.resolve (.value v :: scope)))

/-- Sends a document through stages, until one drops it. -/
def applyStages (scope : Scope) (v : Value) : List (Stage M) → M (List (Stage M) × Option Value)
  | [] => pure ([], some v)
  | stage :: rest => do
    let (stage, out) ← stage.apply scope v
    match out with
    | none => return (stage :: rest, none)
    | some v => do
      let (rest, out) ← applyStages scope v rest
      return (stage :: rest, out)

/-- Sends documents through stages, one after another. -/
def runStages (scope : Scope) (stages : List (Stage M)) : List Value → M (List Value)
  | [] => pure []
  | v :: rest => do
    let (stages, out) ← applyStages scope v stages
    let rest ← runStages scope stages rest
    return out.toList ++ rest

namespace Pipeline

/-- The pipeline with a stage in front. -/
def cons (stage : Stage M) (p : Pipeline M) : Pipeline M := { p with stages := stage :: p.stages }

/-- Splits a queue into stages and the operations left. The operands of stages are resolved here. -/
def ofEntries (scope : Scope) : List (Entry M) → M (Pipeline M)
  | [] => pure ⟨[], []⟩
  | .select selector :: rest => do
    let selector ← selector.resolve scope
    return (← ofEntries scope rest).cons (.select selector)
  | .filter predicate :: rest => do return (← ofEntries scope rest).cons (.filter predicate)
  | .distinct :: rest => do return (← ofEntries scope rest).cons (.distinct [])
  | .limit n :: rest => do
    let n ← ofOutcome ((← n.resolve scope).asDouble "limit")
    return (← ofEntries scope rest).cons (.limit n.toWord)
  | .pluck names :: rest => do
    let names ← fieldNames scope "pluck" names
    return (← ofEntries scope rest).cons (.pluck names)
  | .map body :: rest => do return (← ofEntries scope rest).cons (.map body)
  | entry :: rest => pure ⟨[], entry :: rest⟩

/-- Whether operations are left to run on what comes out. -/
def hasRest (p : Pipeline M) : Bool := !p.rest.isEmpty

/-- Sends documents through the stages, and runs the operations left on what comes out. -/
def run (p : Pipeline M) (scope : Scope) (docs : List Value) : M Value := do
  let out ← runStages scope p.stages docs
  evaluate scope (.array out) p.rest

end Pipeline

end KeyValue

end QueryAlgebra
