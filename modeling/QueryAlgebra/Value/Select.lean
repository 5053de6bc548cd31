import QueryAlgebra.Value.Rules

/-!
# Selection inside values

`select` narrows to a field of an object, an item of an array, or a field of every item of an array;
through null or a scalar it answers null. `pluck` keeps the named fields of an object.
-/

namespace QueryAlgebra

namespace Value

/-- The error for a value of the wrong type. -/
def mismatch (command expected : String) (actual : Value) : Error :=
  .typeMismatch command expected actual.typeName

mutual

/-- The field of that name: of an object, or of every item of an array. Null where there is none. -/
def field (key : String) : Value → Value
  | .object fields => (Fields.get? fields key).getD .null
  | .array items => .array (fieldOfItems key items)
  | _ => .null

/-- The field of that name of every item. -/
def fieldOfItems (key : String) : List Value → List Value
  | [] => []
  | v :: rest => field key v :: fieldOfItems key rest

end

/-- The item at a position; a negative position counts from the end. Null where there is none. -/
def itemAt (items : List Value) (position : Int) : Value :=
  let i := if position < 0 then items.length + position else position
  if i < 0 then .null else (items[i.toNat]?).getD .null

/-- Narrows a value to a field or a position. A number that is no signed 64-bit integer counts as
    position zero. -/
def select (current selector : Value) : Except Error Value :=
  match current, selector with
  | .null, _ => .ok .null
  | .object _, .string key => .ok (current.field key)
  | .array items, .number n => .ok (itemAt items (n.toInt64?.getD 0))
  | .array _, .string key => .ok (current.field key)
  | .array _, other | .object _, other => .error (mismatch "select" "string or number" other)
  | _, _ => .ok .null

/-- Keeps the named fields of an object, in the order of the names. -/
def pluck (names : List String) (command : String) : Value → Except Error Value
  | .object fields =>
    .ok (.object (names.eraseDups.filterMap (fun name => (Fields.get? fields name).map (name, ·))))
  | other => .error (mismatch command "object" other)

/-- The value selected by one field name after another. -/
def path (names : List String) (v : Value) : Value := names.foldl (fun v name => v.field name) v

mutual

/-- The leaves of a value: the path of names to every value inside that is no object, and that
    value. An empty object has none. -/
def leaves : Value → List (List String × Value)
  | .object fields => leavesOfFields fields
  | v => [([], v)]

/-- The leaves of fields, in order. -/
def leavesOfFields : List (String × Value) → List (List String × Value)
  | [] => []
  | (name, v) :: rest =>
    (leaves v).map (fun leaf => (name :: leaf.1, leaf.2)) ++ leavesOfFields rest

end

end Value

end QueryAlgebra
