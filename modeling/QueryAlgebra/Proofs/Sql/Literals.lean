import QueryAlgebra.Proofs.Json.Reading
import QueryAlgebra.Proofs.Sql.Tokens

/-!
# Literals are read as what they were written from

`lex` says where the tokens of a statement end. Here a token is also decoded: between quotes, a
doubled quote is one quote; in an escape string of Postgres, a backslash and a letter are the
character that they stand for. A value put into a statement is read as the value, whatever it holds,
and what stands behind it is left as it is (`embedded_exactly`).

* `readLexeme`: the first token of a text, decoded, and what follows it.
* `readQuoted_doubled`, `readEscapes_doubled`: the two layers of quoting are undone.
* `readNumber_written`: a number is read to its end, as nothing in it ends it early.
-/

namespace QueryAlgebra

namespace Sql

/-! ## 1. Decoded tokens -/

/-- A token of a statement with what it denotes. -/
inductive Lexeme where
  /-- A text, its quotes undone. -/
  | text (value : String)
  /-- An identifier, its quotes undone. -/
  | ident (name : String)
  /-- A number as it is printed, with a leading minus where there is one. -/
  | number (digits : String)
  /-- A keyword. -/
  | word (letters : String)
  /-- Any other character. -/
  | mark (c : Char)
deriving DecidableEq, Repr

/-- What is read, with a character before it. -/
def before (c : Char) (read : List Char × List Char) : List Char × List Char := (c :: read.1, read.2)

/-- The text up to the quote that ends it, and what follows the quote. A doubled quote is one quote
    of the text. -/
def readQuoted (quote : Char) : List Char → Option (List Char × List Char)
  | [] => none
  | [c] => if c = quote then some ([], []) else none
  | c :: c' :: rest =>
    if c ≠ quote then (readQuoted quote (c' :: rest)).map (before c)
    else if c' = quote then (readQuoted quote rest).map (before quote)
    else some ([], c' :: rest)

/-- The character that a backslash and a letter stand for. The letters that begin the number of a
    character are not read here, all others stand for themselves. -/
def unescaped (c : Char) : Option Char :=
  if c = 'b' then some '\x08'
  else if c = 'f' then some '\x0c'
  else if c = 'n' then some '\n'
  else if c = 'r' then some '\r'
  else if c = 't' then some '\t'
  else if c = 'x' ∨ c = 'u' ∨ c = 'U' ∨ (c.isDigit ∧ c ≠ '8' ∧ c ≠ '9') then none
  else some c

/-- The text of an escape string up to the quote that ends it, and what follows the quote. -/
def readEscapes : List Char → Option (List Char × List Char)
  | [] => none
  | [c] => if c = '\'' then some ([], []) else none
  | c :: c' :: rest =>
    if c = '\\' then (unescaped c').bind (fun x => (readEscapes rest).map (before x))
    else if c ≠ '\'' then (readEscapes (c' :: rest)).map (before c)
    else if c' = '\'' then (readEscapes rest).map (before '\'')
    else some ([], c' :: rest)

/-- The minus sign before a number, if there is one, and what follows it. -/
def readMinus : List Char → List Char × List Char
  | '-' :: rest => (['-'], rest)
  | rest => ([], rest)

/-- The point and the digits after it, if there is a point, and what follows them. -/
def readFraction : List Char → List Char × List Char
  | '.' :: rest => ('.' :: rest.takeWhile Char.isDigit, rest.dropWhile Char.isDigit)
  | rest => ([], rest)

/-- The exponent, if there is a mark with digits after it, and what follows it. -/
def readExponent : List Char → List Char × List Char
  | [] => ([], [])
  | mark :: rest =>
    let (sign, digits) := Numeral.splitSign rest
    if (mark = 'e' ∨ mark = 'E') ∧ digits.takeWhile Char.isDigit ≠ [] then
      (mark :: sign.toList ++ digits.takeWhile Char.isDigit, digits.dropWhile Char.isDigit)
    else ([], mark :: rest)

/-- A number and what follows it. None where it has no digits, or where a letter follows at once. -/
def readNumber (text : List Char) : Option (List Char × List Char) :=
  let (minus, text) := readMinus text
  let whole := text.takeWhile Char.isDigit
  let (fraction, text) := readFraction (text.dropWhile Char.isDigit)
  let (exponent, text) := readExponent text
  if whole = [] ∨ text.head?.any isWordChar then none
  else some (minus ++ whole ++ fraction ++ exponent, text)

/-- A decoded token from its characters, and what follows it. -/
def Lexeme.of (kind : String → Lexeme) (read : List Char × List Char) : Lexeme × List Char :=
  (kind (String.ofList read.1), read.2)

/-- **The first token of a text, decoded, and what follows it**; none where a quote is left open.
    A minus sign right before a digit belongs to the number. -/
def readLexeme (d : Dialect) : List Char → Option (Lexeme × List Char)
  | [] => none
  | c :: rest =>
    if c = '\'' then (readQuoted c rest).map (Lexeme.of .text)
    else if c = d.identQuote then (readQuoted c rest).map (Lexeme.of .ident)
    else if d = .postgres ∧ (c = 'E' ∨ c = 'e') ∧ rest.head? = some '\'' then
      (readEscapes rest.tail).map (Lexeme.of .text)
    else if c.isDigit ∨ (c = '-' ∧ rest.head?.any Char.isDigit) then
      (readNumber (c :: rest)).map (Lexeme.of .number)
    else if isWordChar c then
      some (Lexeme.of .word (c :: rest.takeWhile isWordChar, rest.dropWhile isWordChar))
    else some (.mark c, rest)

/-! ## 2. Quotes -/

section Quoted

variable {quote : Char} {rest : List Char}

theorem readQuoted_cons {c : Char} {text : List Char} (hc : c ≠ quote) :
    readQuoted quote (c :: text) = (readQuoted quote text).map (before c) := by
  cases text with
  | nil => simp [readQuoted, hc]
  | cons c' rest => simp [readQuoted, hc]

/-- A quote that is not doubled ends the text. -/
theorem readQuoted_end (hrest : rest.head? ≠ some quote) :
    readQuoted quote (quote :: rest) = some ([], rest) := by
  cases rest with
  | nil => simp [readQuoted]
  | cons c rest =>
    have hc : c ≠ quote := fun h => hrest (by rw [h]; rfl)
    simp [readQuoted, hc]

/-- **Doubling is undone**, and ends where the text did. -/
theorem readQuoted_doubled (text : List Char) (hrest : rest.head? ≠ some quote) :
    readQuoted quote (doubleChars quote text ++ quote :: rest) = some (text, rest) := by
  induction text with
  | nil => exact readQuoted_end hrest
  | cons c text ih =>
    by_cases hc : c = quote
    · subst hc
      have hcons : doubleChars c (c :: text) = c :: c :: doubleChars c text := by simp [doubleChars]
      simp [hcons, readQuoted, ih, before]
    · have hcons : doubleChars quote (c :: text) = c :: doubleChars quote text := by
        simp [doubleChars, hc]
      rw [hcons, List.cons_append, readQuoted_cons hc, ih]
      rfl

/-- A text between quotes is read as the text. -/
theorem readQuoted_enclosed (text : String) (hrest : rest.head? ≠ some quote) :
    (enclosed quote text).toList ++ rest = quote :: (doubleChars quote text.toList ++ quote :: rest) ∧
      readQuoted quote (doubleChars quote text.toList ++ quote :: rest) = some (text.toList, rest) := by
  refine ⟨?_, readQuoted_doubled text.toList hrest⟩
  rw [toList_enclosed, List.cons_append, List.append_assoc]
  rfl

end Quoted

theorem readEscapes_cons {c : Char} {text : List Char} (hslash : c ≠ '\\') (hquote : c ≠ '\'') :
    readEscapes (c :: text) = (readEscapes text).map (before c) := by
  cases text with
  | nil => simp [readEscapes, hquote]
  | cons c' rest => simp [readEscapes, hslash, hquote]

/-- **Both layers are undone**: quotes doubled over backslashes doubled. -/
theorem readEscapes_doubled (text : List Char) {rest : List Char} (hrest : rest.head? ≠ some '\'') :
    readEscapes (doubleChars '\'' (doubleChars '\\' text) ++ '\'' :: rest) = some (text, rest) := by
  induction text with
  | nil =>
    cases rest with
    | nil => rfl
    | cons c rest =>
      have hc : c ≠ '\'' := fun h => hrest (by rw [h]; rfl)
      simp [doubleChars, readEscapes, hc]
  | cons c text ih =>
    by_cases hslash : c = '\\'
    · have hcons : doubleChars '\'' (doubleChars '\\' (c :: text)) =
          '\\' :: '\\' :: doubleChars '\'' (doubleChars '\\' text) := by
        simp [doubleChars, hslash]
      have hsame : unescaped '\\' = some '\\' := by decide
      rw [hcons, List.cons_append, List.cons_append, readEscapes, if_pos rfl, hsame, ih, hslash]
      rfl
    · by_cases hquote : c = '\''
      · have hcons : doubleChars '\'' (doubleChars '\\' (c :: text)) =
            '\'' :: '\'' :: doubleChars '\'' (doubleChars '\\' text) := by
          simp [doubleChars, hquote]
        rw [hcons, List.cons_append, List.cons_append, readEscapes, if_neg (by decide), if_neg (by simp),
          if_pos rfl, ih, hquote]
        rfl
      · have hcons : doubleChars '\'' (doubleChars '\\' (c :: text)) =
            c :: doubleChars '\'' (doubleChars '\\' text) := by
          simp [doubleChars, hslash, hquote]
        rw [hcons, List.cons_append, readEscapes_cons hslash hquote, ih]
        rfl

/-! ## 3. Numbers -/

/-- What follows a number cannot be taken for a part of it. -/
def Closes (rest : List Char) : Prop :=
  ∀ c, rest.head? = some c → isWordChar c = false ∧ c ≠ '.'

namespace Closes

variable {rest : List Char}

theorem not_digit (h : Closes rest) {c : Char} (hc : rest.head? = some c) : c.isDigit = false := by
  have hword := (h c hc).1
  simp only [isWordChar, Char.isAlphanum, Bool.or_eq_false_iff] at hword
  exact hword.1.1.2

theorem readExponent_eq (h : Closes rest) : readExponent rest = ([], rest) := by
  cases rest with
  | nil => rfl
  | cons c rest =>
    have hmark : ¬(c = 'e' ∨ c = 'E') := by
      rintro (rfl | rfl) <;> exact absurd (h _ rfl).1 (by decide)
    simp [readExponent, hmark]

end Closes

section Written

variable {n : Numeral} {rest : List Char}

theorem readMinus_written (h : n.Plain) (rest : List Char) :
    readMinus (n.written ++ rest) = (n.sign.toList, n.whole ++ n.tail ++ rest) := by
  rw [Numeral.written_eq]
  rcases h.sign with hsign | hsign
  · obtain ⟨c, cs, hwhole⟩ := List.exists_cons_of_ne_nil h.whole_ne_nil
    have hdigit : c.isDigit = true := h.whole c (by rw [hwhole]; exact List.mem_cons_self)
    rw [hsign, hwhole]
    simp only [Option.toList_none, List.nil_append, List.cons_append]
    unfold readMinus
    split
    · next heq => cases heq; exact absurd hdigit (by decide)
    · rfl
  · rw [hsign]
    rfl

/-- A fraction as it is written. -/
def fractionText : Option (List Char) → List Char
  | none => []
  | some digits => '.' :: digits

/-- An exponent as it is written. -/
def exponentText : Option (Option Char × List Char) → List Char
  | none => []
  | some (sign, digits) => 'e' :: sign.toList ++ digits

theorem tail_eq (n : Numeral) : n.tail = fractionText n.fraction ++ exponentText n.exponent := by
  obtain ⟨sign, whole, fraction, exponent⟩ := n
  cases fraction <;> cases exponent <;> rfl

/-- Neither an exponent nor what follows a number begins with a digit or a point. -/
theorem head_exponent (hrest : Closes rest) (e : Option (Option Char × List Char)) {c : Char}
    (hc : (exponentText e ++ rest).head? = some c) : c.isDigit = false ∧ c ≠ '.' := by
  cases e with
  | none => exact ⟨hrest.not_digit hc, (hrest c hc).2⟩
  | some e =>
    obtain rfl : 'e' = c := Option.some.inj hc
    decide

theorem readFraction_written (h : n.Plain) (hrest : Closes rest) :
    readFraction (fractionText n.fraction ++ (exponentText n.exponent ++ rest)) =
      (fractionText n.fraction, exponentText n.exponent ++ rest) := by
  have hhead := fun c => head_exponent hrest n.exponent (c := c)
  cases hfraction : n.fraction with
  | none =>
    simp only [fractionText, List.nil_append]
    unfold readFraction
    split
    · next heq => exact absurd rfl (hhead '.' (by rw [heq]; rfl)).2
    · rfl
  | some digits =>
    have hdigits := h.fraction digits hfraction
    simp only [fractionText, List.cons_append, readFraction,
      takeWhile_run hdigits fun c hc => (hhead c hc).1,
      dropWhile_run hdigits fun c hc => (hhead c hc).1]

theorem readExponent_written (h : n.Plain) (hcomplete : n.exponentComplete = true)
    (hrest : Closes rest) :
    readExponent (exponentText n.exponent ++ rest) = (exponentText n.exponent, rest) := by
  cases hexponent : n.exponent with
  | none => exact hrest.readExponent_eq
  | some e =>
    obtain ⟨sign, digits⟩ := e
    obtain ⟨hsign, hdigits⟩ := h.exponent sign digits hexponent
    have hne : digits ≠ [] := by
      rintro rfl
      simp [Numeral.exponentComplete, hexponent] at hcomplete
    have hsplit : Numeral.splitSign (sign.toList ++ (digits ++ rest)) = (sign, digits ++ rest) :=
      Numeral.splitSign_signed hsign
    have htake := takeWhile_run hdigits (fun c => hrest.not_digit (c := c))
    have hdrop := dropWhile_run hdigits (fun c => hrest.not_digit (c := c))
    simp [exponentText, readExponent, hsplit, htake, hdrop, hne]

/-- A number begins with a digit, or with a minus sign right before one. -/
theorem written_begins (h : n.Plain) : ∃ c cs, n.written = c :: cs ∧
    (c.isDigit = true ∨ (c = '-' ∧ ∃ c' cs', cs = c' :: cs' ∧ c'.isDigit = true)) := by
  obtain ⟨c, cs, hwhole⟩ := List.exists_cons_of_ne_nil h.whole_ne_nil
  have hdigit : c.isDigit = true := h.whole c (by rw [hwhole]; exact List.mem_cons_self)
  rw [Numeral.written_eq, hwhole]
  rcases h.sign with hsign | hsign <;> rw [hsign]
  · exact ⟨c, cs ++ n.tail, rfl, Or.inl hdigit⟩
  · exact ⟨'-', c :: (cs ++ n.tail), rfl, Or.inr ⟨rfl, c, _, rfl, hdigit⟩⟩

/-- **A number is read to its end**, and no further. -/
theorem readNumber_written (h : n.Plain) (hcomplete : n.exponentComplete = true)
    (hrest : Closes rest) : readNumber (n.written ++ rest) = some (n.written, rest) := by
  have hhead : ∀ c, (n.tail ++ rest).head? = some c → c.isDigit = false := fun c hc => by
    cases htail : n.tail with
    | nil => exact hrest.not_digit (by simpa [htail] using hc)
    | cons c' cs => exact n.head_tail c (by simpa [htail] using hc)
  have htake : (n.whole ++ n.tail ++ rest).takeWhile Char.isDigit = n.whole := by
    rw [List.append_assoc, takeWhile_run h.whole hhead]
  have hdrop : (n.whole ++ n.tail ++ rest).dropWhile Char.isDigit =
      fractionText n.fraction ++ (exponentText n.exponent ++ rest) := by
    rw [List.append_assoc, dropWhile_run h.whole hhead, tail_eq, List.append_assoc]
  have hword : rest.head?.any isWordChar = false := by
    cases rest with
    | nil => rfl
    | cons c rest => exact (hrest c rfl).1
  simp only [readNumber, readMinus_written h, htake, hdrop, readFraction_written h hrest,
    readExponent_written h hcomplete hrest]
  rw [if_neg (by simp [h.whole_ne_nil, hword]), Numeral.written_eq, tail_eq]
  simp only [List.append_assoc]

end Written

/-! ## 4. Values -/

/-- What stands behind a value in a statement: nothing, or a space, a comma, or a parenthesis that
    closes. -/
def Separated (rest : List Char) : Prop :=
  ∀ c, rest.head? = some c → c = ' ' ∨ c = ',' ∨ c = ')'

theorem separated_nil : Separated [] := fun c hc => by cases hc

theorem Separated.closes {rest : List Char} (h : Separated rest) : Closes rest := fun c hc => by
  rcases h c hc with rfl | rfl | rfl <;> decide

theorem Separated.head_ne {rest : List Char} (h : Separated rest) {quote : Char}
    (hquote : quote ≠ ' ' ∧ quote ≠ ',' ∧ quote ≠ ')') : rest.head? ≠ some quote := fun hc => by
  rcases h quote hc with rfl | rfl | rfl <;> simp at hquote

/-- What a value denotes in a statement: a text is the text, an array or an object its JSON text, a
    number the number as it is printed. SQLite has no truth values, and writes numbers for them. -/
def Dialect.denoted (d : Dialect) : Value → Lexeme
  | .null => .word "NULL"
  | .bool b =>
    match d with
    | .sqlite => .number (if b then "1" else "0")
    | .postgres => .word (if b then "TRUE" else "FALSE")
  | .number n => .number n.text
  | .string s => .text s
  | v => .text v.json

section Embedded

variable {d : Dialect} {rest : List Char}

theorem readLexeme_ident (hrest : Separated rest) (name : String) :
    readLexeme d ((d.ident name).toList ++ rest) = some (.ident name, rest) := by
  have hhead : rest.head? ≠ some d.identQuote := hrest.head_ne (by cases d <;> decide)
  have hquote : d.identQuote ≠ '\'' := by cases d <;> decide
  obtain ⟨htext, hread⟩ := readQuoted_enclosed name hhead
  rw [Dialect.ident, htext, readLexeme, if_neg hquote, if_pos rfl, hread]
  simp [Lexeme.of]

theorem readLexeme_enclosed (hrest : Separated rest) (text : String) :
    readLexeme d ((enclosed '\'' text).toList ++ rest) = some (.text text, rest) := by
  have hhead : rest.head? ≠ some '\'' := hrest.head_ne (by decide)
  obtain ⟨htext, hread⟩ := readQuoted_enclosed text hhead
  rw [htext, readLexeme, if_pos rfl, hread]
  simp [Lexeme.of]

/-- **A text literal is read as the text**, in an escape string as well. -/
theorem readLexeme_text (hrest : Separated rest) (text : String) :
    readLexeme d ((d.text text).toList ++ rest) = some (.text text, rest) := by
  cases d with
  | sqlite => exact readLexeme_enclosed hrest text
  | postgres =>
    unfold Dialect.text
    split_ifs with hslash
    · have hhead : rest.head? ≠ some '\'' := hrest.head_ne (by decide)
      have htext : ("E" ++ enclosed '\'' (String.ofList (doubleChars '\\' text.toList))).toList ++ rest =
          'E' :: '\'' :: (doubleChars '\'' (doubleChars '\\' text.toList) ++ '\'' :: rest) := by
        simp [toList_enclosed]
      rw [htext, readLexeme, if_neg (by decide), if_neg (by decide), if_pos ⟨rfl, Or.inl rfl, rfl⟩,
        List.tail_cons, readEscapes_doubled text.toList hhead]
      simp [Lexeme.of]
    · exact readLexeme_enclosed hrest text

theorem readLexeme_number (hrest : Separated rest) (n : Number) :
    readLexeme d (n.text.toList ++ rest) = some (.number n.text, rest) := by
  have hcomplete : n.parts.exponentComplete = true := by
    have := n.strict_parts
    simp only [Numeral.strict, Bool.and_eq_true] at this
    exact this.2
  have hread := readNumber_written n.parts_plain hcomplete hrest.closes
  obtain ⟨c, cs, htext, hbegins⟩ := written_begins n.parts_plain
  have hquote : c ≠ '\'' ∧ c ≠ d.identQuote ∧ c ≠ 'E' ∧ c ≠ 'e' := by
    have hfirst : c = '-' ∨ c.isDigit = true := hbegins.elim Or.inr fun h => Or.inl h.1
    refine ⟨?_, ?_, ?_, ?_⟩ <;> rintro rfl
    · revert hfirst; decide
    · revert hfirst; cases d <;> decide
    · revert hfirst; decide
    · revert hfirst; decide
  have hnumber : c.isDigit = true ∨ (c = '-' ∧ (cs ++ rest).head?.any Char.isDigit) := by
    rcases hbegins with hdigit | ⟨hminus, c', cs', hcs, hdigit⟩
    · exact Or.inl hdigit
    · exact Or.inr ⟨hminus, by simp [hcs, hdigit]⟩
  rw [htext, List.cons_append] at hread
  rw [n.toList_text, htext, List.cons_append]
  rw [readLexeme, if_neg hquote.1, if_neg hquote.2.1, if_neg (by simp [hquote.2.2]), if_pos hnumber,
    hread]
  simp [Lexeme.of, ← htext, ← n.toList_text]

/-- A keyword is read to its end. -/
theorem readLexeme_word (hrest : Separated rest) {c : Char} (letters : List Char)
    (hc : c ∈ ['N', 'T', 'F']) (hletters : letters.all isWordChar = true) :
    readLexeme d (c :: letters ++ rest) = some (.word (String.ofList (c :: letters)), rest) := by
  have hclosed : ∀ x, rest.head? = some x → isWordChar x = false := fun x hx => (hrest.closes x hx).1
  have hall := List.all_eq_true.mp hletters
  have hfirst : c ≠ '\'' ∧ c ≠ d.identQuote ∧ ¬(c = 'E' ∨ c = 'e') ∧ c.isDigit = false ∧ c ≠ '-' ∧
      isWordChar c = true := by
    simp only [List.mem_cons, List.not_mem_nil, or_false] at hc
    rcases hc with rfl | rfl | rfl <;> cases d <;> decide
  obtain ⟨hquote, hident, hescape, hdigit, hminus, hword⟩ := hfirst
  rw [List.cons_append, readLexeme, if_neg hquote, if_neg hident, if_neg (fun h => hescape h.2.1),
    if_neg (by simp [hdigit, hminus]), if_pos hword, takeWhile_run hall hclosed,
    dropWhile_run hall hclosed]
  rfl

theorem readLexeme_bool (hrest : Separated rest) (b : Bool) :
    readLexeme d ((d.bool b).toList ++ rest) = some (d.denoted (.bool b), rest) := by
  cases d with
  | sqlite =>
    cases b with
    | false => exact readLexeme_number hrest (.int 0 (by decide))
    | true => exact readLexeme_number hrest (.int 1 (by decide))
  | postgres =>
    cases b with
    | false => exact readLexeme_word hrest ['A', 'L', 'S', 'E'] (by decide) rfl
    | true => exact readLexeme_word hrest ['R', 'U', 'E'] (by decide) rfl

/-- **A value put into a statement is read as the value.** -/
theorem readLexeme_literal (hrest : Separated rest) (v : Value) :
    readLexeme d ((d.literal v).toList ++ rest) = some (d.denoted v, rest) := by
  cases v with
  | null =>
    show readLexeme d ("NULL".toList ++ rest) = some (.word "NULL", rest)
    exact readLexeme_word hrest ['U', 'L', 'L'] (by decide) rfl
  | bool b => exact readLexeme_bool hrest b
  | number n => exact readLexeme_number hrest n
  | string s => exact readLexeme_text hrest s
  | array items => exact readLexeme_text hrest _
  | object fields => exact readLexeme_text hrest _

end Embedded

/-- **Literals are exact.** In front of nothing, a space, a comma or a closing parenthesis, the first
    token is the value that was put there, and what follows is left as it is; so it is with a name. -/
theorem embedded_exactly (d : Dialect) (rest : List Char) (hrest : Separated rest) :
    (∀ v : Value, readLexeme d ((d.literal v).toList ++ rest) = some (d.denoted v, rest)) ∧
      ∀ name : String, readLexeme d ((d.ident name).toList ++ rest) = some (.ident name, rest) :=
  ⟨readLexeme_literal hrest, readLexeme_ident hrest⟩

/-! ### A text that tries to end its quotes -/

/-- A text with a backslash before a quote, and the rest of a condition. -/
def breakout : String := "\\' OR ''=') --"

/-- It is one token in both dialects, and the parenthesis behind it stays. -/
theorem breakout_embedded : Separated [')'] ∧
    readLexeme .sqlite "'\\'' OR ''''='') --')".toList = some (.text breakout, [')']) ∧
    readLexeme .postgres "E'\\\\'' OR ''''='') --')".toList = some (.text breakout, [')']) := by
  have hrest : Separated [')'] := fun c hc => Or.inr (Or.inr (Option.some.inj hc).symm)
  exact ⟨hrest, (embedded_exactly .sqlite [')'] hrest).1 (.string breakout),
    (embedded_exactly .postgres [')'] hrest).1 (.string breakout)⟩

end Sql

end QueryAlgebra
