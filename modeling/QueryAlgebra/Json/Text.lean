import QueryAlgebra.Value.Basic

/-!
# JSON text of values

The compact text of a value: no blanks, fields in order, strings with the short escapes and
`\u00xx` for the other control characters.
-/

namespace QueryAlgebra

namespace Json

/-- A digit of a number below sixteen, in lower case. -/
def hexDigit (n : Nat) : Char := Nat.digitChar n

/-- How a character is written inside a string. -/
def escapeChar (c : Char) : List Char :=
  if c = '"' then ['\\', '"']
  else if c = '\\' then ['\\', '\\']
  else if c = '\n' then ['\\', 'n']
  else if c = '\r' then ['\\', 'r']
  else if c = '\t' then ['\\', 't']
  else if c = '\x08' then ['\\', 'b']
  else if c = '\x0c' then ['\\', 'f']
  else if c.toNat < 32 then
    ['\\', 'u', '0', '0', hexDigit (c.toNat / 16), hexDigit (c.toNat % 16)]
  else [c]

/-- A string between quotes. -/
def quote (s : String) : String :=
  "\"" ++ String.ofList (s.toList.flatMap escapeChar) ++ "\""

end Json

namespace Value

mutual

/-- The compact text of a value. -/
def json : Value → String
  | .null => "null"
  | .bool true => "true"
  | .bool false => "false"
  | .number n => n.text
  | .string s => Json.quote s
  | .array items => "[" ++ jsonItems items ++ "]"
  | .object fields => "\x7b" ++ jsonFields fields ++ "\x7d"

/-- The texts of the items of an array, separated by commas. -/
def jsonItems : List Value → String
  | [] => ""
  | [v] => v.json
  | v :: w :: rest => v.json ++ "," ++ jsonItems (w :: rest)

/-- The texts of the fields of an object, separated by commas. -/
def jsonFields : List (String × Value) → String
  | [] => ""
  | [(name, v)] => Json.quote name ++ ":" ++ v.json
  | (name, v) :: f :: rest => Json.quote name ++ ":" ++ v.json ++ "," ++ jsonFields (f :: rest)

end

end Value

end QueryAlgebra
