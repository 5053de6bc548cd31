import QueryAlgebra.Config.Toml
import QueryAlgebra.Error

/-!
# Configuration

What an insert does when the primary key exists, and how many random keys it tries. Both are read
from a settings file; a setting that is missing keeps its default, and other settings are ignored.
-/

namespace QueryAlgebra

/-- What an insert does when the primary key exists. -/
inductive Conflict where
  /-- The row fails. -/
  | error
  /-- The stored row is overwritten. -/
  | replace
  /-- The new fields are merged into the stored row. -/
  | update
deriving DecidableEq, Repr, Inhabited

/-- The name of a way to treat conflicts. -/
def Conflict.name : Conflict → String
  | .error => "error"
  | .replace => "replace"
  | .update => "update"

/-- The way to treat conflicts of that name. -/
def Conflict.ofName? : String → Option Conflict
  | "error" => some .error
  | "replace" => some .replace
  | "update" => some .update
  | _ => none

/-- The settings of a database. -/
structure Config where
  /-- How inserts treat conflicts when they do not say. -/
  conflict : Conflict := .replace
  /-- How many random primary keys an insert tries. -/
  idAttempts : Nat := 8
deriving DecidableEq, Repr, Inhabited

namespace Config

/-- The setting for conflicts in a table of settings: a name, or a table whose one entry has that
    name and is an empty table or an empty array. -/
def conflictOf (settings : Toml.Entries) : Option Conflict :=
  match Toml.get? settings "conflict" with
  | none => some .replace
  | some (.string name) => Conflict.ofName? name
  | some (.table _ [(name, .table _ [])]) => Conflict.ofName? name
  | some (.table _ [(name, .array [])]) => Conflict.ofName? name
  | some _ => none

/-- The setting for attempts in a table of settings: a number of 32 bits. -/
def idAttemptsOf (settings : Toml.Entries) : Option Nat :=
  match Toml.get? settings "id_attempts" with
  | none => some 8
  | some (.integer i) => if 0 ≤ i ∧ i < 0x100000000 then some i.toNat else none
  | some _ => none

/-- The settings that a table gives, before they are checked. -/
def ofSettings? (settings : Toml.Entries) : Option Config := do
  some ⟨← conflictOf settings, ← idAttemptsOf settings⟩

/-- The settings that a text gives. At least one attempt must be allowed. -/
def ofToml (text : String) : Except Error Config :=
  match (Toml.read text).bind ofSettings? with
  | none => .error (.argument "invalid config: malformed settings")
  | some config =>
    if config.idAttempts = 0 then .error (.argument "id_attempts must be at least 1")
    else .ok config

/-- A settings file with the defaults and what they mean. -/
def defaultToml : String :=
  "# Query settings\n#\n" ++
  "# What insert does when the primary key already exists:\n" ++
  "#   \"error\"   = fail the row\n" ++
  "#   \"replace\" = overwrite the stored row (default)\n" ++
  "#   \"update\"  = merge the new fields into the stored row\n" ++
  "conflict = \"replace\"\n\n" ++
  "# How many random primary keys to try before giving up\n" ++
  "id_attempts = 8\n"

/-- How an insert treats conflicts: as it says, else as the settings say. -/
def conflictFor (config : Config) (choice : Option Conflict) : Conflict :=
  choice.getD config.conflict

end Config

end QueryAlgebra
