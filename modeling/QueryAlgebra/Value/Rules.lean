import QueryAlgebra.Json.Text
import QueryAlgebra.Error

/-!
# Rules on values

How values are compared and turned into text.

* `looseEq`: numbers are equal by value, arrays and objects item by item and field by field.
* `compareLoose`: an order exists between two numbers, two strings or two truth values only.
* `fingerprint`: the text under which a value is remembered as seen and stored as a key.
* `sameDocument`: equality that reads an absent field as null.
-/

namespace QueryAlgebra

namespace Value

/-! ## 1. Equality and order -/

mutual

/-- Loose equality of values. -/
def looseEq : Value → Value → Bool
  | .null, .null => true
  | .bool a, .bool b => a == b
  | .number a, .number b => a.same b
  | .string a, .string b => a == b
  | .array xs, .array ys => looseEqItems xs ys
  | .object fs, .object gs => fs.length == gs.length && looseEqFields fs gs
  | _, _ => false

/-- Loose equality of the items of two arrays, place by place. -/
def looseEqItems : List Value → List Value → Bool
  | [], [] => true
  | x :: xs, y :: ys => looseEq x y && looseEqItems xs ys
  | _, _ => false

/-- Whether every field of the first object is found, loosely equal, in the second. -/
def looseEqFields : List (String × Value) → Fields → Bool
  | [], _ => true
  | (name, v) :: fs, gs =>
    (match gs.get? name with
      | some w => looseEq v w
      | none => false) && looseEqFields fs gs

end

/-- The order of two values, when they have one. -/
def compareLoose : Value → Value → Option Ordering
  | .number a, .number b => some (a.order b)
  | .string a, .string b => some (compare a b)
  | .bool a, .bool b => some (compare a b)
  | _, _ => none

/-! ## 2. Text -/

/-- A value as text: null is empty, a string stands for itself, all else is its JSON text. -/
def toText : Value → String
  | .null => ""
  | .string s => s
  | v => v.json

/-- The text under which a value is remembered. A double without fraction has the text of the
    integer with the same value. -/
def fingerprint : Value → String
  | .number n => n.normal.text
  | v => v.json

/-! ## 3. Documents -/

/-- The value without its null fields, when it is an object. -/
def withoutNulls : Value → Value
  | .object fields => .object (fields.filter (fun f => !f.2.isNull))
  | v => v

/-- Whether two documents hold the same data: a null field counts as absent. -/
def sameDocument (a b : Value) : Bool := looseEq a.withoutNulls b.withoutNulls

/-- The fields of an object given to an insert. -/
def asDocument : Value → Except Error Fields
  | .object fields => .ok fields
  | v => .error (.argument ("insert expects an object or an array of objects, got " ++ v.typeName))

/-- The documents given to an insert: one object, or an array of objects. -/
def documents : Value → Except Error (List Fields)
  | .array items => items.mapM asDocument
  | v => do return [← v.asDocument]

end Value

end QueryAlgebra
