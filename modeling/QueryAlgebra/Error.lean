/-!
# Errors

The causes for which an operation fails, and the one place where they are put into words.
-/

namespace QueryAlgebra

/-- Why an operation failed. -/
inductive Error where
  /-- A malformed call: a wrong number of arguments, an empty schema, a bad name. -/
  | argument (reason : String)
  /-- A queued operation that the compiler at hand cannot express. -/
  | unsupported (command : String) (reason : String)
  /-- An operation applied to a value of the wrong type. -/
  | typeMismatch (command : String) (expected : String) (actual : String)
  /-- The storage refused a request. -/
  | storage (reason : String)
  /-- A stored text could not be read, or a record is malformed. -/
  | serialization (reason : String)
deriving DecidableEq, Repr, Inhabited

namespace Error

/-- The wording of an error. -/
def message : Error → String
  | .argument reason => "invalid argument: " ++ reason
  | .unsupported command reason => "unsupported operation `" ++ command ++ "`: " ++ reason
  | .typeMismatch command expected actual =>
    "type mismatch in `" ++ command ++ "`: expected " ++ expected ++ ", got " ++ actual
  | .storage reason => "storage error: " ++ reason
  | .serialization reason => "serialization error: " ++ reason

/-- Whether the cause lies with the storage or with what it holds, and not with the call. -/
def isStorageFault : Error → Bool
  | .storage _ | .serialization _ => true
  | _ => false

end Error

/-- A plain outcome as a computation. -/
def ofOutcome {M : Type → Type} [Monad M] [MonadExceptOf Error M] {α : Type} :
    Except Error α → M α
  | .ok a => pure a
  | .error e => throw e

end QueryAlgebra
