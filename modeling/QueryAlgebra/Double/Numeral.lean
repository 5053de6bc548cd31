import QueryAlgebra.Double.Decimal

/-!
# Written numerals

The parts of a numeral as it is written: a sign, digits, digits after a point, a signed exponent.
Scanning splits a text into these parts without judging them; which parts must be present is the
reader's rule, and there are two: the strict one of documents and the lenient one of columns. They
differ in rounding too: a column has the nearest double, a document one that is near.
-/

namespace QueryAlgebra

/-! ## 1. Parts -/

/-- The parts of a numeral, as written. -/
structure Numeral where
  /-- The sign before it, when there is one. -/
  sign : Option Char
  /-- The digits before the point. -/
  whole : List Char
  /-- The digits after the point, when there is a point. -/
  fraction : Option (List Char)
  /-- The sign and the digits after the exponent mark, when there is one. -/
  exponent : Option (Option Char × List Char)
deriving DecidableEq, Repr

/-- Digits read as one number. -/
def digitsValue (digits : List Char) : Nat :=
  digits.foldl (fun acc c => acc * 10 + (c.toNat - '0'.toNat)) 0

namespace Numeral

/-- A leading sign and what follows it. -/
def splitSign : List Char → Option Char × List Char
  | '-' :: rest => (some '-', rest)
  | '+' :: rest => (some '+', rest)
  | rest => (none, rest)

/-- The parts of a text that is nothing but a numeral. -/
def scan (text : List Char) : Option Numeral :=
  let (sign, text) := splitSign text
  let whole := text.takeWhile Char.isDigit
  let text := text.dropWhile Char.isDigit
  let (fraction, text) := match text with
    | '.' :: rest => (some (rest.takeWhile Char.isDigit), rest.dropWhile Char.isDigit)
    | rest => (none, rest)
  match text with
  | [] => some ⟨sign, whole, fraction, none⟩
  | mark :: rest =>
    if mark = 'e' ∨ mark = 'E' then
      let (expSign, digits) := splitSign rest
      if digits.all Char.isDigit then some ⟨sign, whole, fraction, some (expSign, digits)⟩
      else none
    else none

/-- Whether an exponent mark is followed by digits. -/
def exponentComplete (n : Numeral) : Bool :=
  match n.exponent with
  | none => true
  | some (_, digits) => !digits.isEmpty

/-- The strict rule: no plus sign, no leading zero, digits on both sides of a point. -/
def strict (n : Numeral) : Bool :=
  n.sign ≠ some '+' && !n.whole.isEmpty && (n.whole.length == 1 || n.whole.head? != some '0')
    && n.fraction ≠ some [] && n.exponentComplete

/-- The lenient rule: digits on at least one side of the point. -/
def lenient (n : Numeral) : Bool :=
  !(n.whole.isEmpty && (n.fraction.getD []).isEmpty) && n.exponentComplete

/-- Whether the numeral has neither a point nor an exponent. -/
def isInteger (n : Numeral) : Bool := n.fraction.isNone && n.exponent.isNone

/-- Whether a minus sign stands before the numeral. -/
def isNegative (n : Numeral) : Bool := n.sign == some '-'

/-- The value of the numeral. -/
def decimal (n : Numeral) : Decimal :=
  let fraction := n.fraction.getD []
  let power : Int := match n.exponent with
    | none => 0
    | some (sign, digits) =>
      if sign = some '-' then -(digitsValue digits : Int) else digitsValue digits
  ⟨n.isNegative, digitsValue (n.whole ++ fraction), power - fraction.length⟩

end Numeral

/-! ## 2. Numerals in documents

A numeral of a document is read in two rounded steps: the leading digits that fit into 64 bits
become a double, and that is multiplied or divided by a power of ten. The answer is near the
numeral, but not always the nearest double. -/

/-- Appends digits to a number as long as it fits into 64 bits; answers the digits left as well. -/
def takeDigits (n : Nat) : List Char → Nat × List Char
  | [] => (n, [])
  | c :: rest =>
    let next := n * 10 + (c.toNat - '0'.toNat)
    if next < 0x10000000000000000 then takeDigits next rest else (n, c :: rest)

theorem takeDigits_lt {n : Nat} (h : n < 0x10000000000000000) (digits : List Char) :
    (takeDigits n digits).1 < 0x10000000000000000 := by
  induction digits generalizing n with
  | nil => simpa [takeDigits] using h
  | cons c rest ih =>
    simp only [takeDigits]
    split
    · next hlt => exact ih hlt
    · exact h

namespace Double

/-- The double nearest to a power of ten. -/
def ofTenTo (k : Nat) : Option Double := nearest false (tenTo k * one) 1

/-- Divides by a power of ten, by `10^308` at a time. Three divisions are enough: the second takes
    any number of 64 bits to zero. -/
def shrink : Nat → Double → Nat → Option Double
  | 0, d, _ => some d
  | steps + 1, d, k =>
    if k ≤ 308 then do d.div (← ofTenTo k)
    else if d.isZero then some d
    else do shrink steps (← d.div (← ofTenTo 308)) (k - 308)

/-- Scales a double by a power of ten. -/
def scaleByTen (d : Double) (exponent : Int) : Option Double :=
  if exponent < 0 then shrink 3 d (-exponent).toNat
  else if exponent ≤ 308 then do d.mul (← ofTenTo exponent.toNat)
  else if d.isZero then some d
  else none

end Double

namespace Numeral

/-- The leading digits of a numeral that fit into 64 bits, and the power of ten that scales them. Of
    the digits before the point those that do not fit are counted in the power, of those after it
    they are dropped. -/
def leading (n : Numeral) : { m : Nat // m < 0x10000000000000000 } × Int :=
  let whole := takeDigits 0 n.whole
  let fraction := n.fraction.getD []
  let all := takeDigits whole.1 fraction
  let power : Int := match n.exponent with
    | none => 0
    | some (sign, digits) =>
      if sign = some '-' then -(digitsValue digits : Int) else digitsValue digits
  (⟨all.1, takeDigits_lt (takeDigits_lt (by decide) _) _⟩,
    whole.2.length - (fraction.length - all.2.length : Nat) + power)

/-- The double that a numeral of a document is read as, `none` beyond the finite doubles. -/
def toDouble (n : Numeral) : Option Double := do
  let (m, power) := n.leading
  let d ← (Double.ofInt m.1 (by have := m.2; omega)).scaleByTen power
  some (if n.isNegative then d.neg else d)

end Numeral

/-! ## 3. Numerals in columns -/

/-- A blank of the Unicode property `White_Space`. -/
def isBlank (c : Char) : Bool :=
  let n := c.toNat
  (0x09 ≤ n && n ≤ 0x0D) || n == 0x20 || n == 0x85 || n == 0xA0 || n == 0x1680
    || (0x2000 ≤ n && n ≤ 0x200A) || n == 0x2028 || n == 0x2029 || n == 0x202F || n == 0x205F
    || n == 0x3000

/-- The text without blanks at its ends. -/
def trimBlanks (text : List Char) : List Char :=
  ((text.dropWhile isBlank).reverse.dropWhile isBlank).reverse

/-- The double that a text of a column spells: a numeral by the lenient rule. A name of an infinity
    or of no number, like a numeral beyond the finite doubles, spells none. -/
def Double.ofText? (text : String) : Option Double := do
  let n ← Numeral.scan (trimBlanks text.toList)
  if n.lenient then ofDecimal n.decimal else none

end QueryAlgebra
