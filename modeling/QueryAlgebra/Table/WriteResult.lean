import QueryAlgebra.Value.Rules

/-!
# Results of writes

Every write answers how many rows it deleted, skipped, failed on, inserted, replaced and left
unchanged, and the first failure in words. Problems of the call are raised; problems of the storage
are reported in the result.
-/

namespace QueryAlgebra

/-- What a write did. -/
structure WriteResult where
  /-- Rows deleted. -/
  deleted : Nat := 0
  /-- Rows skipped. -/
  skipped : Nat := 0
  /-- Rows that failed. -/
  errors : Nat := 0
  /-- The first failure. -/
  firstError : Option String := none
  /-- Rows inserted. -/
  inserted : Nat := 0
  /-- Rows replaced or updated. -/
  replaced : Nat := 0
  /-- Rows written with the content they had. -/
  unchanged : Nat := 0
deriving DecidableEq, Repr, Inhabited

namespace WriteResult

/-- The result of a row that failed. -/
def failure (message : String) : WriteResult :=
  { errors := 1, skipped := 1, firstError := some message }

/-- The sum of two results; the earlier failure stays the first. -/
def merge (a b : WriteResult) : WriteResult where
  deleted := a.deleted + b.deleted
  skipped := a.skipped + b.skipped
  errors := a.errors + b.errors
  firstError := a.firstError.or b.firstError
  inserted := a.inserted + b.inserted
  replaced := a.replaced + b.replaced
  unchanged := a.unchanged + b.unchanged

/-- A counter as a value: a word of 64 bits. -/
def counter (n : Nat) : Value := .count (n % 0x10000000000000000)

/-- The result as a value; without a failure it has no field for one. -/
def toValue (r : WriteResult) : Value :=
  .object (
    [("deleted", counter r.deleted), ("skipped", counter r.skipped), ("errors", counter r.errors)]
    ++ (match r.firstError with
      | some message => [("first_error", .string message)]
      | none => [])
    ++ [("inserted", counter r.inserted), ("replaced", counter r.replaced),
      ("unchanged", counter r.unchanged)])

/-- The counter that a value gives. -/
def counter? : Value → Option Nat
  | .number (.int i _) => if 0 ≤ i then some i.toNat else none
  | _ => none

/-- The first failure that a value gives. -/
def firstError? : Value → Option (Option String)
  | .null => some none
  | .string s => some (some s)
  | _ => none

/-- The result that fields give: all six counters are needed. -/
def ofFields? (fields : Fields) : Option WriteResult := do
  let deleted ← counter? (← fields.get? "deleted")
  let skipped ← counter? (← fields.get? "skipped")
  let errors ← counter? (← fields.get? "errors")
  let firstError ← firstError? ((fields.get? "first_error").getD .null)
  let inserted ← counter? (← fields.get? "inserted")
  let replaced ← counter? (← fields.get? "replaced")
  let unchanged ← counter? (← fields.get? "unchanged")
  some { deleted, skipped, errors, firstError, inserted, replaced, unchanged }

/-- The names of a result's fields, in order. -/
def fieldNames : List String :=
  ["deleted", "skipped", "errors", "first_error", "inserted", "replaced", "unchanged"]

/-- The result that a value gives: its fields by name, or an array of them in order. -/
def ofValue (v : Value) : Except Error WriteResult :=
  let read := match v with
    | .object fields => ofFields? fields
    | .array items =>
      if items.length = fieldNames.length then ofFields? (fieldNames.zip items) else none
    | _ => none
  match read with
  | some r => .ok r
  | none => .error (.serialization "malformed write result")

/-- Reports a failure of the storage in the result; other failures are raised. -/
def degrade : Except Error WriteResult → Except Error WriteResult
  | .error e => if e.isStorageFault then .ok (failure e.message) else .error e
  | .ok r => .ok r

variable {M : Type → Type} [Monad M] [MonadExceptOf Error M]

/-- The outcome of a write with failures of the storage reported in its result. -/
def report (outcome : M WriteResult) : M WriteResult :=
  tryCatch outcome (fun e => ofOutcome (degrade (.error e)))

/-- Writes documents one after another, reports the failure of each, and adds up the results. -/
def reportEach (write : Fields → M WriteResult) (total : WriteResult) : List Fields → M WriteResult
  | [] => pure total
  | doc :: rest => do
    let result ← report (write doc)
    reportEach write (total.merge result) rest

/-- Inserts an object or an array of objects: what their writes need to know is read once, and a
    failure to read it is reported. -/
def insertAfter {η : Type} (header : M η) (write : η → Fields → M WriteResult) (docs : Value) :
    M WriteResult := do
  let docs ← ofOutcome docs.documents
  let header? : Except Error η ← tryCatch (do return .ok (← header)) (fun e => pure (.error e))
  match header? with
  | .error e => ofOutcome (degrade (.error e))
  | .ok h => reportEach (write h) {} docs

end WriteResult

/-! ## Checks before a write -/

namespace Value

/-- The one document that a command takes. -/
def singleDocument (command : String) : Value → Except Error Fields
  | .object fields => .ok fields
  | v => .error (.argument (command ++ " expects an object, got " ++ v.typeName))

end Value

namespace Fields

/-- Refuses a document that names another primary key than the row's. -/
def checkKey (doc : Fields) (primaryKey : String) (key : Value) : Except Error Unit :=
  match doc.get? primaryKey with
  | some v =>
    if !v.isNull && !v.looseEq key then
      .error (.argument ("cannot change primary key `" ++ primaryKey ++ "` from " ++ key.json
        ++ " to " ++ v.json))
    else .ok ()
  | none => .ok ()

/-- Whether a document has no true field; writing it deletes the stored row. -/
def isErasure (doc : Fields) : Bool := doc.all (fun f => !f.2.truthy)

/-- A document under a key: the key first, then the other fields. -/
def keyed (primaryKey : String) (key : Value) (doc : Fields) : Fields :=
  (primaryKey, key) :: doc.erase primaryKey

end Fields

end QueryAlgebra
