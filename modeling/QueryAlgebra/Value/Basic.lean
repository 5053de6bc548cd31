import QueryAlgebra.Number

/-!
# Values

Documents, literals and answers are all values: null, truth values, numbers, strings, arrays and
objects. An object is a list of named fields in the order of insertion; writing a field that exists
keeps its place.
-/

namespace QueryAlgebra

/-- A document value. -/
inductive Value where
  | null
  | bool (b : Bool)
  | number (n : Number)
  | string (s : String)
  | array (items : List Value)
  | object (fields : List (String × Value))
deriving Inhabited

/-- The fields of an object, in the order of insertion. -/
abbrev Fields := List (String × Value)

/-! ## 1. Fields -/

namespace Fields

/-- The value of a field. -/
def get? : Fields → String → Option Value
  | [], _ => none
  | (name, v) :: rest, key => if name = key then some v else get? rest key

/-- Whether a field of that name exists. -/
def has (fields : Fields) (key : String) : Bool := (fields.get? key).isSome

/-- Writes a field: in its place when it exists, else at the end. -/
def set : Fields → String → Value → Fields
  | [], key, v => [(key, v)]
  | (name, old) :: rest, key, v =>
    if name = key then (name, v) :: rest else (name, old) :: set rest key v

/-- The fields without the one of that name. -/
def erase (fields : Fields) (key : String) : Fields := fields.filter (fun f => f.1 ≠ key)

/-- The names of the fields, in order. -/
def names (fields : Fields) : List String := fields.map Prod.fst

/-- The fields of a list of pairs: of a repeated name the first place and the last value count. -/
def ofList (pairs : List (String × Value)) : Fields :=
  pairs.foldl (fun fields p => set fields p.1 p.2) []

/-- Writes every field of the second object into the first. -/
def merge (fields changes : Fields) : Fields :=
  changes.foldl (fun acc p => set acc p.1 p.2) fields

end Fields

/-! ## 2. Kinds of values -/

namespace Value

/-- The name of a value's type. -/
def typeName : Value → String
  | .null => "null"
  | .bool _ => "bool"
  | .number _ => "number"
  | .string _ => "string"
  | .array _ => "array"
  | .object _ => "object"

/-- Whether the value is null. -/
def isNull : Value → Bool
  | .null => true
  | _ => false

/-- Whether a value counts as true: all but null, false, zero and the empty string do. -/
def truthy : Value → Bool
  | .null => false
  | .bool b => b
  | .number n => !n.isZero
  | .string s => s ≠ ""
  | .array _ | .object _ => true

/-- A count as a value. -/
def count (n : Nat) : Value := .number (.ofCount n)

/-- A computed double as a value: an integer where it is one. -/
def ofDouble (d : Double) : Value := .number (.ofDouble d)

/-- The value of a computation that may have left the finite doubles; it is null then. -/
def ofDouble? : Option Double → Value
  | some d => ofDouble d
  | none => .null

end Value

end QueryAlgebra
