import QueryAlgebra.Value.Rules
import QueryAlgebra.Json.Reader
import QueryAlgebra.Text.Quoted

/-!
# Table schemas

A schema is a list of fields with declared types. A backend that stores scalars decodes what it
reads back by the declared type of the column; columns that the schema does not name are left alone.
-/

namespace QueryAlgebra

/-- The declared type of a field. -/
inductive FieldType where
  /-- Text. -/
  | string
  /-- A truth value. -/
  | bool
  /-- A number. -/
  | number
  /-- An object, stored as JSON text. -/
  | object
  /-- Anything, stored as JSON text when it is no scalar. -/
  | any
deriving DecidableEq, Repr, Inhabited

/-- A field of a schema. -/
structure SchemaField where
  /-- The name of the field. -/
  name : String
  /-- Its declared type. -/
  type : FieldType
  /-- Whether the field is indexed. -/
  index : Bool
deriving DecidableEq, Repr, Inhabited

/-- The fields of a table. -/
abbrev Schema := List SchemaField

namespace FieldType

/-- The name under which a schema gives the type. -/
def name : FieldType → String
  | .string => "string"
  | .bool => "bool"
  | .number => "number"
  | .object => "object"
  | .any => "any"

/-- The type of that name. -/
def ofName? : String → Option FieldType
  | "string" => some .string
  | "bool" => some .bool
  | "number" => some .number
  | "object" => some .object
  | "any" => some .any
  | _ => none

/-- The name of the type in descriptions. -/
def title : FieldType → String
  | .string => "String"
  | .bool => "Bool"
  | .number => "Number"
  | .object => "Object"
  | .any => "Any"

/-- The type that a value gives: its name, or an object whose one field is that name, with null. -/
def ofValue? : Value → Option FieldType
  | .string s => ofName? s
  | .object [(name, .null)] => ofName? name
  | _ => none

end FieldType

namespace SchemaField

/-- The description of a field. -/
def describe (f : SchemaField) : String :=
  "SchemaEntry \x7b name: " ++ Text.quoted f.name ++ ", field_type: " ++ f.type.title ++ ", index: "
    ++ (if f.index then "true" else "false") ++ " \x7d"

/-- The field that a value gives: an object with a name and a type, or the same as an array. The
    index mark may be missing. -/
def ofValue? : Value → Option SchemaField
  | .object fields => do
    let .string name ← Fields.get? fields "name" | none
    let type ← FieldType.ofValue? (← Fields.get? fields "type")
    let .bool index := (Fields.get? fields "index").getD (.bool false) | none
    some ⟨name, type, index⟩
  | .array [.string name, type] => do some ⟨name, ← FieldType.ofValue? type, false⟩
  | .array [.string name, type, .bool index] => do
    some ⟨name, ← FieldType.ofValue? type, index⟩
  | _ => none

/-- The field as a value. -/
def toValue (f : SchemaField) : Value :=
  .object [("name", .string f.name), ("type", .string f.type.name), ("index", .bool f.index)]

/-- Decodes what is stored in a column of a declared type. Null stays null. -/
def decode (type : FieldType) (stored : Value) : Except Error Value :=
  if stored.isNull then .ok .null
  else match type, stored with
    | .string, v => .ok v
    | .number, .number n => .ok (.number n)
    | .number, .string s => .ok (.ofDouble? (Double.ofText? s))
    | .number, .bool b => .ok (.count (if b then 1 else 0))
    | .number, _ => .ok .null
    | .bool, .string s => .ok (.bool (s ≠ "" && s ≠ "0" && s ≠ "false"))
    | .bool, v => .ok (.bool v.truthy)
    | .object, .string s =>
      match Json.read s with
      | some v => .ok v
      | none => .error (.serialization "malformed JSON text")
    | .object, v => .ok v
    | .any, .string s => .ok ((Json.read s).getD (.string s))
    | .any, v => .ok v

end SchemaField

namespace Schema

/-- The schema that a value gives. -/
def ofValue (v : Value) : Except Error Schema :=
  match v with
  | .array items =>
    match items.mapM SchemaField.ofValue? with
    | some schema => .ok schema
    | none => .error (.serialization "malformed schema")
  | _ => .error (.serialization "malformed schema")

/-- The schema as a value. -/
def toValue (schema : Schema) : Value := .array (schema.map SchemaField.toValue)

/-- The field of that name. -/
def field? (schema : Schema) (name : String) : Option SchemaField :=
  schema.find? (fun f => f.name = name)

/-- A schema of a table to create has a field, and no field without a name. -/
def validate (schema : Schema) : Except Error Unit :=
  if schema.isEmpty then .error (.argument "table schema must have at least one field")
  else match schema.find? (fun f => f.name = "") with
    | some f => .error (.argument ("schema field names must not be empty: " ++ f.describe))
    | none => .ok ()

/-- The primary key: the first indexed field, else the first. -/
def primary? (schema : Schema) : Option SchemaField :=
  (schema.find? SchemaField.index).or schema.head?

/-- Decodes the fields of a stored row. -/
def decodeFields (schema : Schema) : Fields → Except Error Fields
  | [] => .ok []
  | (name, stored) :: rest => do
    let v ← match schema.field? name with
      | some f => SchemaField.decode f.type stored
      | none => .ok stored
    return (name, v) :: (← decodeFields schema rest)

/-- Decodes a stored row. -/
def decodeRow (schema : Schema) (row : Fields) : Except Error Value := do
  return .object (← schema.decodeFields row)

end Schema

end QueryAlgebra
