import QueryAlgebra.Value.Basic
import QueryAlgebra.Double.Numeral

/-!
# Reading JSON text

The reader takes one character at a time. A *scanner* state says what token the characters so far
have begun; a *builder* state says which arrays and objects are open and what may come next. Both
are plain transition functions, so that reading is one fold over the text and needs no bound beside
the nesting limit.

The rules are strict: no trailing comma, no comment, no control character in a string, no surrogate
that stands alone, and at most `depthLimit` nested arrays and objects. Of a repeated field name the
first place and the last value count.
-/

namespace QueryAlgebra

namespace Json

/-- How deeply arrays and objects may nest. -/
def depthLimit : Nat := 127

/-! ## 1. Tokens -/

/-- A token of JSON text. -/
inductive Token where
  | openArray
  | closeArray
  | openObject
  | closeObject
  | comma
  | colon
  | string (s : String)
  /-- A value that is one word: a number, a truth value, null. -/
  | scalar (v : Value)

/-- What the characters read so far have begun. Texts are held in reverse. -/
inductive Scan where
  /-- Between tokens. -/
  | ground
  /-- Inside a word of letters. -/
  | word (read : List Char)
  /-- Inside a numeral. -/
  | numeral (read : List Char)
  /-- Inside a string. -/
  | text (read : List Char)
  /-- After a backslash. -/
  | escape (read : List Char)
  /-- Inside the four digits after `\u`; `high` is the surrogate that came before. -/
  | unit (read : List Char) (high : Option Nat) (digits : Nat) (value : Nat)
  /-- After a high surrogate, before the backslash of its partner. -/
  | pair (read : List Char) (high : Nat)
  /-- After the backslash of a partner. -/
  | pairEscape (read : List Char) (high : Nat)

/-- The integer of 64 bits that a numeral is, if it is one. Negative zero is none. -/
def integerOf (n : Numeral) : Option Number :=
  let m := digitsValue n.whole
  if n.isInteger && !(n.isNegative && m == 0) then
    Number.ofInt? (if n.isNegative then -(m : Int) else m)
  else none

/-- The value of a numeral: an integer where it is one, else a double. -/
def numberOf (n : Numeral) : Option Number :=
  (integerOf n).or (n.toDouble.map Number.double)

/-- The token of a finished numeral. -/
def numeralToken (read : List Char) : Option Token := do
  let n ← Numeral.scan read.reverse
  if n.strict then (numberOf n).map (fun k => .scalar (.number k)) else none

/-- The token of a finished word. -/
def wordToken (read : List Char) : Option Token :=
  match String.ofList read.reverse with
  | "null" => some (.scalar .null)
  | "true" => some (.scalar (.bool true))
  | "false" => some (.scalar (.bool false))
  | _ => none

/-- The value of a hexadecimal digit. -/
def hexValue (c : Char) : Option Nat :=
  if '0' ≤ c ∧ c ≤ '9' then some (c.toNat - '0'.toNat)
  else if 'a' ≤ c ∧ c ≤ 'f' then some (c.toNat - 'a'.toNat + 10)
  else if 'A' ≤ c ∧ c ≤ 'F' then some (c.toNat - 'A'.toNat + 10)
  else none

/-- What a short escape stands for. -/
def shortEscape : Char → Option Char
  | '"' => some '"'
  | '\\' => some '\\'
  | '/' => some '/'
  | 'b' => some '\x08'
  | 'f' => some '\x0c'
  | 'n' => some '\n'
  | 'r' => some '\r'
  | 't' => some '\t'
  | _ => none

/-- Goes on after the last digit of `\uXXXX`. -/
def unitRead (read : List Char) (high : Option Nat) (value : Nat) : Option Scan :=
  match high with
  | none =>
    if 0xD800 ≤ value ∧ value < 0xDC00 then some (.pair read value)
    else if 0xDC00 ≤ value ∧ value < 0xE000 then none
    else some (.text (Char.ofNat value :: read))
  | some high =>
    if 0xDC00 ≤ value ∧ value < 0xE000 then
      some (.text (Char.ofNat (0x10000 + (high - 0xD800) * 1024 + (value - 0xDC00)) :: read))
    else none

/-- A character between tokens. -/
def scanGround (c : Char) : Option (Scan × List Token) :=
  match c with
  | ' ' | '\t' | '\n' | '\r' => some (.ground, [])
  | '[' => some (.ground, [.openArray])
  | ']' => some (.ground, [.closeArray])
  | '\x7b' => some (.ground, [.openObject])
  | '\x7d' => some (.ground, [.closeObject])
  | ',' => some (.ground, [.comma])
  | ':' => some (.ground, [.colon])
  | '"' => some (.text [], [])
  | _ =>
    if c = '-' ∨ c.isDigit then some (.numeral [c], [])
    else if c.isAlpha then some (.word [c], [])
    else none

/-- Whether a character can continue a numeral. -/
def continuesNumeral (c : Char) : Bool :=
  c.isDigit || c == '.' || c == 'e' || c == 'E' || c == '+' || c == '-'

/-- Ends a token before a character that does not continue it. -/
def endToken (token : Option Token) (c : Char) : Option (Scan × List Token) := do
  let t ← token
  let (next, tokens) ← scanGround c
  some (next, t :: tokens)

/-- One character of text: the next state and the tokens it completes. -/
def Scan.step : Scan → Char → Option (Scan × List Token)
  | .ground, c => scanGround c
  | .word read, c =>
    if c.isAlpha then some (.word (c :: read), []) else endToken (wordToken read) c
  | .numeral read, c =>
    if continuesNumeral c then some (.numeral (c :: read), []) else endToken (numeralToken read) c
  | .text read, c =>
    if c = '"' then some (.ground, [.string (String.ofList read.reverse)])
    else if c = '\\' then some (.escape read, [])
    else if c.toNat < 32 then none
    else some (.text (c :: read), [])
  | .escape read, c =>
    if c = 'u' then some (.unit read none 0 0, [])
    else (shortEscape c).map (fun d => (.text (d :: read), []))
  | .unit read high digits value, c => do
    let d ← hexValue c
    let value := value * 16 + d
    if digits = 3 then (unitRead read high value).map (fun s => (s, []))
    else some (.unit read high (digits + 1) value, [])
  | .pair read high, c => if c = '\\' then some (.pairEscape read high, []) else none
  | .pairEscape read high, c => if c = 'u' then some (.unit read (some high) 0 0, []) else none

/-- The tokens that the end of the text completes. -/
def Scan.finish : Scan → Option (List Token)
  | .ground => some []
  | .word read => (wordToken read).map (fun t => [t])
  | .numeral read => (numeralToken read).map (fun t => [t])
  | _ => none

/-! ## 2. Values -/

/-- An open array or object. Items are held in reverse. -/
inductive Frame where
  /-- An array and the items before. -/
  | items (before : List Value)
  /-- An object, the fields before, and the name whose value comes next. -/
  | fields (before : Fields) (name : String)

/-- What may come next. -/
inductive Expect where
  /-- A value. -/
  | value
  /-- A value, or the end of an array that has just begun. -/
  | firstItem
  /-- A field name, or the end of an object that has just begun. -/
  | firstName
  /-- A field name. -/
  | name (before : Fields)
  /-- The colon after a field name. -/
  | colon (before : Fields) (name : String)
  /-- A comma or the end of what is open around the value. -/
  | next (v : Value)

/-- The arrays and objects that are open, innermost first, and what may come next. -/
structure Build where
  /-- The containers around the place. -/
  stack : List Frame
  /-- What may come next. -/
  expect : Expect

/-- The state before any token. -/
def Build.start : Build := ⟨[], .value⟩

/-- Whether one more array or object may open. -/
def Build.mayNest (limit : Nat) (b : Build) : Bool := b.stack.length < limit

/-- A token where a value may stand. -/
def Build.stepValue (limit : Nat) (b : Build) : Token → Option Build
  | .scalar v => some ⟨b.stack, .next v⟩
  | .string s => some ⟨b.stack, .next (.string s)⟩
  | .openArray => if b.mayNest limit then some ⟨.items [] :: b.stack, .firstItem⟩ else none
  | .openObject => if b.mayNest limit then some ⟨b.stack, .firstName⟩ else none
  | _ => none

/-- One token. -/
def Build.step (limit : Nat) (b : Build) (t : Token) : Option Build :=
  match b.expect, t with
  | .value, t => b.stepValue limit t
  | .firstItem, .closeArray =>
    match b.stack with
    | .items _ :: stack => some ⟨stack, .next (.array [])⟩
    | _ => none
  | .firstItem, t => b.stepValue limit t
  | .firstName, .closeObject => some ⟨b.stack, .next (.object [])⟩
  | .firstName, .string name => some ⟨b.stack, .colon [] name⟩
  | .name before, .string name => some ⟨b.stack, .colon before name⟩
  | .colon before name, .colon => some ⟨.fields before name :: b.stack, .value⟩
  | .next v, .comma =>
    match b.stack with
    | .items before :: stack => some ⟨.items (v :: before) :: stack, .value⟩
    | .fields before name :: stack => some ⟨stack, .name (before.set name v)⟩
    | [] => none
  | .next v, .closeArray =>
    match b.stack with
    | .items before :: stack => some ⟨stack, .next (.array (v :: before).reverse)⟩
    | _ => none
  | .next v, .closeObject =>
    match b.stack with
    | .fields before name :: stack => some ⟨stack, .next (.object (before.set name v))⟩
    | _ => none
  | _, _ => none

/-- The value that has been built, when nothing is open. -/
def Build.finish (b : Build) : Option Value :=
  match b.stack, b.expect with
  | [], .next v => some v
  | _, _ => none

/-! ## 3. Reading -/

/-- The state of reading: the token begun and the value begun. -/
structure Read where
  /-- The token begun. -/
  scan : Scan
  /-- The value begun. -/
  build : Build

/-- One character of text. -/
def Read.step (limit : Nat) (r : Read) (c : Char) : Option Read := do
  let (scan, tokens) ← r.scan.step c
  let build ← tokens.foldlM (Build.step limit) r.build
  some ⟨scan, build⟩

/-- The value that a text spells, with a given nesting limit. -/
def readWithin (limit : Nat) (text : String) : Option Value := do
  let r ← text.toList.foldlM (Read.step limit) ⟨.ground, .start⟩
  let tokens ← r.scan.finish
  let build ← tokens.foldlM (Build.step limit) r.build
  build.finish

/-- The value that a text spells. -/
def read (text : String) : Option Value := readWithin depthLimit text

end Json

end QueryAlgebra
