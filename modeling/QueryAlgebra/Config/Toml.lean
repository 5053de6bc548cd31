import QueryAlgebra.Json.Reader

/-!
# Reading TOML

The reader of settings files: key-value lines, dotted keys, tables, arrays of tables, and all kinds
of values. A text is read by functions that take the characters left and answer what they found and
the characters after it; the functions that call each other for nested values count down a bound
that the length of the text gives.

A text is refused when it is malformed, when it gives a name twice or completes a table that is
complete, when a key has too many parts (`maxParts`), or when values nest too deep (`maxNesting`).

* `Toml.read`: the top table of a text, `none` when the text is refused.
-/

namespace QueryAlgebra

namespace Toml

/-! ## 1. Values -/

/-- How a table came to be; it decides who may add to it. -/
inductive Origin where
  /-- By its own header. -/
  | header
  /-- By a header of a table below it. -/
  | implied
  /-- By a dotted key. -/
  | dotted
  /-- Written inline; it is complete. -/
  | inline
deriving DecidableEq, Repr

/-- Whether a dotted key may lead into a table: to put its value there, or to go on below. -/
def Origin.admits (origin : Origin) (putsHere : Bool) : Bool :=
  match origin with
  | .dotted => true
  | .implied => !putsHere
  | .header | .inline => false

/-- A value of a settings file. Floats and dates are recognised, but not kept. -/
inductive Node where
  | string (s : String)
  | integer (i : Int)
  | float
  | boolean (b : Bool)
  | date
  | array (items : List Node)
  | table (origin : Origin) (entries : List (String × Node))
  /-- An array of tables, the latest last. -/
  | tables (rows : List (List (String × Node)))

/-- The entries of a table, in order. -/
abbrev Entries := List (String × Node)

/-- The characters left. -/
abbrev Rest := List Char

/-! ## 2. Characters -/

/-- Skips spaces and tabs. -/
def skipBlanks (r : Rest) : Rest := r.dropWhile (fun c => c = ' ' ∨ c = '\t')

/-- Whether a character may stand in a comment or a literal string. -/
def isPlain (c : Char) : Bool := c == '\t' || (0x20 ≤ c.toNat && c.toNat ≠ 0x7F)

/-- The characters after a line end, when one comes next. -/
def lineEnd? : Rest → Option Rest
  | '\n' :: r => some r
  | '\r' :: '\n' :: r => some r
  | _ => none

/-- Skips a comment, when one comes next, up to the end of its line. -/
def skipComment : Rest → Option Rest
  | '#' :: r =>
    let after := r.dropWhile isPlain
    if after.isEmpty || (lineEnd? after).isSome then some after else none
  | r => some r

/-- The end of a line: blanks, perhaps a comment, and a line end or the end of the text. -/
def endLine (r : Rest) : Option Rest := do
  let r ← skipComment (skipBlanks r)
  match r with
  | [] => some []
  | r => lineEnd? r

/-- Skips blanks, comments and line ends, in at most the given number of lines. -/
def skipLines : Nat → Rest → Option Rest
  | 0, r => some r
  | bound + 1, r => do
    let r ← skipComment (skipBlanks r)
    match lineEnd? r with
    | some r => skipLines bound r
    | none => some r

/-! ## 3. Strings -/

/-- The character of a given number of hexadecimal digits. -/
def hexChar (n : Nat) (r : Rest) : Option (Char × Rest) := do
  let digits ← (r.take n).mapM Json.hexValue
  let code := digits.foldl (fun acc d => acc * 16 + d) 0
  if digits.length = n ∧ code.isValidChar then some (Char.ofNat code, r.drop n) else none

/-- The character that an escape stands for, after the backslash. -/
def escaped : Rest → Option (Char × Rest)
  | 'b' :: r => some ('\x08', r)
  | 't' :: r => some ('\t', r)
  | 'n' :: r => some ('\n', r)
  | 'f' :: r => some ('\x0c', r)
  | 'r' :: r => some ('\r', r)
  | '"' :: r => some ('"', r)
  | '\\' :: r => some ('\\', r)
  | 'u' :: r => hexChar 4 r
  | 'U' :: r => hexChar 8 r
  | _ => none

/-- The rest of a string between double quotes. -/
def basicString : Nat → List Char → Rest → Option (String × Rest)
  | 0, _, _ => none
  | bound + 1, read, r =>
    match r with
    | '"' :: r => some (String.ofList read.reverse, r)
    | '\\' :: r => do
      let (c, r) ← escaped r
      basicString bound (c :: read) r
    | c :: r => if isPlain c then basicString bound (c :: read) r else none
    | [] => none

/-- The rest of a string between single quotes. -/
def literalString (r : Rest) : Option (String × Rest) :=
  let body := r.takeWhile (fun c => c ≠ '\'' ∧ isPlain c)
  match r.drop body.length with
  | '\'' :: r => some (String.ofList body, r)
  | _ => none

/-- The end of a string of several lines: three quotes, before which up to two more belong to the
    string. -/
def closeLines (quote : Char) (r : Rest) : Option (List Char × Rest) :=
  let run := (r.takeWhile (· == quote)).length
  if run < 3 then none
  else
    let extra := min (run - 3) 2
    some (List.replicate extra quote, r.drop (extra + 3))

/-- Skips blanks and line ends. A carriage return alone is no line end. -/
def skipSpace : Rest → Rest
  | ' ' :: r => skipSpace r
  | '\t' :: r => skipSpace r
  | '\n' :: r => skipSpace r
  | '\r' :: '\n' :: r => skipSpace r
  | r => r

/-- Skips blanks and line ends after a backslash at the end of a line. -/
def joinLines (r : Rest) : Option Rest := do
  some (skipSpace (← lineEnd? (skipBlanks r)))

/-- The rest of a string of several lines between the given quotes. -/
def longString (quote : Char) : Nat → List Char → Rest → Option (String × Rest)
  | 0, _, _ => none
  | bound + 1, read, r =>
    match closeLines quote r with
    | some (extra, after) => some (String.ofList (read.reverse ++ extra), after)
    | none =>
      match lineEnd? r with
      | some after => longString quote bound ('\n' :: read) after
      | none =>
        match r with
        | [] => none
        | c :: after =>
          if c = '\\' ∧ quote = '"' then
            match joinLines after with
            | some after => longString quote bound read after
            | none => do
              let (c, after) ← escaped after
              longString quote bound (c :: read) after
          else if isPlain c then longString quote bound (c :: read) after
          else none

/-- Skips one line end. -/
def afterFirstLine (r : Rest) : Rest := (lineEnd? r).getD r

/-- A string of any form. -/
def anyString (r : Rest) : Option (String × Rest) :=
  match r with
  | '"' :: '"' :: '"' :: r => longString '"' (r.length + 1) [] (afterFirstLine r)
  | '\'' :: '\'' :: '\'' :: r => longString '\'' (r.length + 1) [] (afterFirstLine r)
  | '"' :: r => basicString (r.length + 1) [] r
  | '\'' :: r => literalString r
  | _ => none

/-! ## 4. Numbers, truth values and dates -/

/-- Whether a character can stand in a word: a number, a truth value, a date. -/
def isWordChar (c : Char) : Bool :=
  c.isAlphanum || c == '_' || c == '+' || c == '-' || c == '.' || c == ':'

/-- Digits with single underscores between them, without the underscores. -/
def plainDigits (isDigit : Char → Bool) (digits : List Char) : Option (List Char) :=
  let kept := digits.filter (· ≠ '_')
  let gaps := (digits.zip (digits.drop 1)).any (fun p => p.1 = '_' ∧ p.2 = '_')
  if kept.isEmpty || gaps || digits.head? = some '_' || digits.getLast? = some '_'
      || !kept.all isDigit then none
  else some kept

/-- An integer of 64 bits. -/
def inRange (i : Int) : Option Node :=
  if -0x8000000000000000 ≤ i ∧ i < 0x8000000000000000 then some (.integer i) else none

/-- A number written in a base other than ten. -/
def based (base : Nat) (digits : List Char) : Option Node := do
  let digits ← plainDigits (fun c => (Json.hexValue c).any (· < base)) digits
  inRange (digits.foldl (fun acc c => acc * base + ((Json.hexValue c).getD 0)) 0 : Nat)

/-- Digits without a leading zero. -/
def noLeadingZero (digits : List Char) : Bool := digits.length = 1 || digits.head? ≠ some '0'

/-- An integer in decimal. -/
def decimalInteger (word : List Char) : Option Node := do
  let (sign, digits) := Numeral.splitSign word
  let digits ← plainDigits Char.isDigit digits
  let n : Int := digitsValue digits
  if noLeadingZero digits then inRange (if sign = some '-' then -n else n) else none

/-- Whether a numeral, given without underscores, stands for a float. Above all doubles it stands
    for none; below all of them it stands for the negative infinity. -/
def fitsFloat (numeral : List Char) : Bool :=
  (Numeral.scan numeral).any (fun n => n.isNegative || (Double.ofDecimal n.decimal).isSome)

/-- Whether a word is a float. -/
def isFloat (word : List Char) : Bool :=
  let body := (Numeral.splitSign word).2
  if body = ['i', 'n', 'f'] ∨ body = ['n', 'a', 'n'] then true
  else
    let mantissa := body.takeWhile (fun c => c ≠ 'e' ∧ c ≠ 'E')
    let exponent := body.drop mantissa.length
    let whole := mantissa.takeWhile (· ≠ '.')
    let fraction := mantissa.drop whole.length
    let digitsOk (ds : List Char) := (plainDigits Char.isDigit ds).isSome
    let wholeOk := match plainDigits Char.isDigit whole with
      | some ds => noLeadingZero ds
      | none => false
    let fractionOk := match fraction with
      | [] => true
      | _ :: ds => digitsOk ds
    let exponentOk := match exponent with
      | [] => true
      | _ :: ds => digitsOk (Numeral.splitSign ds).2
    wholeOk && fractionOk && exponentOk && !(fraction.isEmpty && exponent.isEmpty)
      && fitsFloat (word.filter (· ≠ '_'))

/-- A number of exactly so many digits, within bounds. -/
def fixedDigits (n lo hi : Nat) (digits : List Char) : Bool :=
  let value := digitsValue digits
  digits.length = n && digits.all Char.isDigit && lo ≤ value && value ≤ hi

/-- Whether a year has a 29th of February. -/
def isLeapYear (year : Nat) : Bool := year % 4 = 0 && (year % 100 ≠ 0 || year % 400 = 0)

/-- The number of days of a month. -/
def daysOf (year month : Nat) : Nat :=
  match month with
  | 2 => if isLeapYear year then 29 else 28
  | 4 | 6 | 9 | 11 => 30
  | _ => 31

/-- Whether a text is a date that exists. -/
def isDate (t : List Char) : Bool :=
  let year := t.take 4
  let month := (t.drop 5).take 2
  let days := daysOf (digitsValue year) (digitsValue month)
  t.length = 10 && fixedDigits 4 0 9999 year && t[4]? = some '-' && fixedDigits 2 1 12 month
    && t[7]? = some '-' && fixedDigits 2 1 days (t.drop 8)

/-- Whether a text is a time of day. -/
def isTime (t : List Char) : Bool :=
  fixedDigits 2 0 23 (t.take 2) && t[2]? = some ':' && fixedDigits 2 0 59 ((t.drop 3).take 2)
    && t[5]? = some ':' && fixedDigits 2 0 60 ((t.drop 6).take 2)
    && (match t.drop 8 with
      | [] => true
      | '.' :: ds => !ds.isEmpty && ds.all Char.isDigit
      | _ => false)

/-- Whether a text is a time with a distance from the standard time. -/
def isZonedTime (t : List Char) : Bool :=
  let zone := t.drop (t.length - 6)
  (match t.getLast? with
    | some c => (c = 'Z' || c = 'z') && isTime t.dropLast
    | none => false)
  || (isTime (t.take (t.length - 6)) && (zone.head? = some '+' || zone.head? = some '-')
    && fixedDigits 2 0 23 ((zone.drop 1).take 2) && zone[3]? = some ':'
    && fixedDigits 2 0 59 (zone.drop 4))

/-- Whether a text is a date, a time, or both. -/
def isMoment (t : List Char) : Bool :=
  isDate t || isTime t
    || (isDate (t.take 10) && (t[10]?).any (fun c => c = 'T' || c = 't' || c = ' ')
      && (isTime (t.drop 11) || isZonedTime (t.drop 11)))

/-- The value of a word. -/
def wordValue (word : List Char) : Option Node :=
  match word with
  | ['t', 'r', 'u', 'e'] => some (.boolean true)
  | ['f', 'a', 'l', 's', 'e'] => some (.boolean false)
  | '0' :: 'x' :: digits => based 16 digits
  | '0' :: 'o' :: digits => based 8 digits
  | '0' :: 'b' :: digits => based 2 digits
  | word =>
    match decimalInteger word with
    | some i => some i
    | none => if isFloat word then some .float else if isMoment word then some .date else none

/-- A word. A date may go on with a time after a space. -/
def word (r : Rest) : Option (Node × Rest) :=
  let first := r.takeWhile isWordChar
  let after := r.drop first.length
  match after with
  | ' ' :: more =>
    let second := more.takeWhile isWordChar
    if isDate first && isMoment (first ++ ' ' :: second) then some (.date, more.drop second.length)
    else (wordValue first).map (·, after)
  | _ => (wordValue first).map (·, after)

/-! ## 5. Keys and tables -/

/-- One part of a key. -/
def simpleKey (r : Rest) : Option (String × Rest) :=
  match r with
  | '"' :: r => basicString (r.length + 1) [] r
  | '\'' :: r => literalString r
  | r =>
    let bare := r.takeWhile (fun c => c.isAlphanum || c == '_' || c == '-')
    if bare.isEmpty then none else some (String.ofList bare, r.drop bare.length)

/-- How many parts a key may have. -/
def maxParts : Nat := 79

/-- Parts between points, at most so many. -/
def keyParts : Nat → Rest → Option (List String × Rest)
  | 0, _ => none
  | most + 1, r => do
    let (part, r) ← simpleKey (skipBlanks r)
    match skipBlanks r with
    | '.' :: r => do
      let (parts, r) ← keyParts most r
      some (part :: parts, r)
    | r => some ([part], r)

/-- A key. -/
def key (r : Rest) : Option (List String × Rest) := keyParts maxParts r

/-- The entry of that name. -/
def get? (entries : Entries) (name : String) : Option Node :=
  (entries.find? (fun e => e.1 = name)).map Prod.snd

/-- The entries with one replaced, or added at the end. -/
def put (entries : Entries) (name : String) (v : Node) : Entries :=
  if (get? entries name).isSome then
    entries.map (fun e => if e.1 = name then (name, v) else e)
  else entries ++ [(name, v)]

/-- Changes the latest of the tables of an array. -/
def updateLatest (change : Entries → Option Entries) (rows : List Entries) :
    Option (List Entries) := do
  some (rows.dropLast ++ [← change (← rows.getLast?)])

/-- Gives a value to a key that has none. The points of a key lead through tables that no header and
    no inline text has completed, and through the latest table of an array; the value itself goes
    into a table that dotted keys have made. -/
def assign : List String → Node → Entries → Option Entries
  | [], _, _ => none
  | [name], v, entries => if (get? entries name).isSome then none else some (put entries name v)
  | name :: path, v, entries =>
    match get? entries name with
    | none => do some (put entries name (.table .dotted (← assign path v [])))
    | some (.table origin inner) =>
      if origin.admits (path.length = 1) then do
        some (put entries name (.table origin (← assign path v inner)))
      else none
    | some (.tables rows) =>
      if path.length = 1 then none
      else do some (put entries name (.tables (← updateLatest (assign path v) rows)))
    | some _ => none

/-- Changes the table that a header's path leads to; of an array of tables it is the latest. -/
def updateAt : List String → (Entries → Option Entries) → Entries → Option Entries
  | [], change, entries => change entries
  | name :: path, change, entries =>
    match get? entries name with
    | none => do some (put entries name (.table .implied (← updateAt path change [])))
    | some (.table .inline _) => none
    | some (.table origin inner) => do
      some (put entries name (.table origin (← updateAt path change inner)))
    | some (.tables rows) => do
      some (put entries name (.tables (← updateLatest (updateAt path change) rows)))
    | some _ => none

/-- Opens the table of a header. -/
def openTable (name : String) (entries : Entries) : Option Entries :=
  match get? entries name with
  | none => some (put entries name (.table .header []))
  | some (.table .implied inner) => some (put entries name (.table .header inner))
  | some _ => none

/-- Opens one more table of an array of tables. -/
def appendTable (name : String) (entries : Entries) : Option Entries :=
  match get? entries name with
  | none => some (put entries name (.tables [[]]))
  | some (.tables rows) => some (put entries name (.tables (rows ++ [[]])))
  | some _ => none

/-! ## 6. Nested values -/

/-- How deep arrays and inline tables may stand in each other. -/
def maxNesting : Nat := 79

mutual

/-- A value that may nest so many arrays and inline tables. -/
def nested : Nat → Nat → Rest → Option (Node × Rest)
  | 0, _, _ => none
  | bound + 1, nesting, r =>
    match r with
    | '"' :: _ | '\'' :: _ => (anyString r).map (fun p => (.string p.1, p.2))
    | '[' :: r =>
      if nesting = 0 then none
      else do
        let (items, r) ← arrayItems bound (nesting - 1) r
        some (.array items, r)
    | '\x7b' :: r =>
      if nesting = 0 then none
      else
        match skipBlanks r with
        | '\x7d' :: r => some (.table .inline [], r)
        | r => do
          let (entries, r) ← inlineEntries bound (nesting - 1) [] r
          some (.table .inline entries, r)
    | r => word r

/-- The rest of an array. A comma may stand after the last item. -/
def arrayItems : Nat → Nat → Rest → Option (List Node × Rest)
  | 0, _, _ => none
  | bound + 1, nesting, r => do
    let r ← skipLines r.length r
    match r with
    | ']' :: r => some ([], r)
    | r => do
      let (v, r) ← nested bound nesting r
      let r ← skipLines r.length r
      match r with
      | ']' :: r => some ([v], r)
      | ',' :: r => do
        let (items, r) ← arrayItems bound nesting r
        some (v :: items, r)
      | _ => none

/-- The rest of an inline table that is not empty. -/
def inlineEntries : Nat → Nat → Entries → Rest → Option (Entries × Rest)
  | 0, _, _, _ => none
  | bound + 1, nesting, entries, r => do
    let (path, r) ← key r
    match r with
    | '=' :: r => do
      let (v, r) ← nested bound nesting (skipBlanks r)
      let entries ← assign path v entries
      match skipBlanks r with
      | ',' :: r => inlineEntries bound nesting entries r
      | '\x7d' :: r => some (entries, r)
      | _ => none
    | _ => none

end

/-- A value. -/
def value (r : Rest) : Option (Node × Rest) := nested (r.length + 1) maxNesting r

/-! ## 7. Documents -/

/-- What has been read: the top table, and the path of the header in force. -/
structure Document where
  /-- The top table. -/
  top : Entries
  /-- The path of the table that lines add to. -/
  header : List String

/-- The name of a header and the characters after its brackets. -/
def headerPath (closing : List Char) (r : Rest) : Option (List String × Rest) := do
  let (path, r) ← key r
  if closing.isPrefixOf r then some (path, r.drop closing.length) else none

/-- Opens the table of a header with the given kind of opening. -/
def enter (opening : String → Entries → Option Entries) (path : List String) (d : Document) :
    Option Document := do
  let name ← path.getLast?
  some ⟨← updateAt path.dropLast (opening name) d.top, path⟩

/-- One line that is neither blank nor a comment. -/
def line (d : Document) (r : Rest) : Option (Document × Rest) :=
  match r with
  | '[' :: '[' :: r => do
    let (path, r) ← headerPath [']', ']'] r
    some (← enter appendTable path d, r)
  | '[' :: r => do
    let (path, r) ← headerPath [']'] r
    some (← enter openTable path d, r)
  | r => do
    let (path, r) ← key r
    match r with
    | '=' :: r => do
      let (v, r) ← value (skipBlanks r)
      some ({ d with top := ← updateAt d.header (assign path v) d.top }, r)
    | _ => none

/-- All lines, at most the given number of them. -/
def lines : Nat → Document → Rest → Option Document
  | 0, _, _ => none
  | bound + 1, d, r => do
    let r ← skipLines r.length r
    match r with
    | [] => some d
    | r => do
      let (d, r) ← line d r
      lines bound d (← endLine r)

/-- Skips the mark that may open a text. -/
def skipMark : Rest → Rest
  | '\uFEFF' :: r => r
  | r => r

/-- The top table of a text. -/
def read (text : String) : Option Entries :=
  (lines (text.length + 1) ⟨[], []⟩ (skipMark text.toList)).map Document.top

end Toml

end QueryAlgebra
