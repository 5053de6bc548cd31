import QueryAlgebra.Double.Arithmetic

/-!
# Doubles in decimal

A decimal numeral is a sign, a coefficient and a power of ten. Reading one gives the nearest double;
writing a double gives the shortest numeral that reads back as it, found by exact arithmetic: the
numerals of one digit are tried first, then those of two, up to seventeen, and on each grid only the
two neighbours of the number can lie in the interval of values that read back as it. Of two
neighbours in the interval the nearer is taken, and the even one when both are equally near.

* `Double.ofDecimal`: reading, `none` beyond the finite doubles.
* `Double.shortest`: the numeral to write.
* `Layout` and `Decimal.render`: where positional notation ends.
-/

namespace QueryAlgebra

/-- A decimal numeral: `±coefficient * 10 ^ exponent`. -/
structure Decimal where
  /-- Whether a minus sign stands before it. -/
  negative : Bool
  /-- The digits, read as one number. -/
  coefficient : Nat
  /-- The power of ten that scales the digits. -/
  exponent : Int
deriving DecidableEq, Inhabited

/-- A power of ten. -/
def tenTo (k : Nat) : Nat := Nat.pow 10 k

/-- The number of decimal digits of a number, read with at most the given steps. -/
def digitCountWithin : Nat → Nat → Nat
  | 0, _ => 1
  | steps + 1, n => if n < 10 then 1 else digitCountWithin steps (n / 10) + 1

/-- The number of decimal digits of a number; zero has one. -/
def digitCount (n : Nat) : Nat := digitCountWithin n.log2 n

namespace Double

/-! ## 1. Reading -/

/-- The double nearest to a numeral, `none` when that is beyond the finite doubles. Numerals of
    `10^310` and more, or below `10^-330`, are decided by their size alone. -/
def ofDecimal (d : Decimal) : Option Double :=
  if d.coefficient = 0 then some { zero with negative := d.negative }
  else
    let size : Int := digitCount d.coefficient + d.exponent
    if size > 310 then none
    else if size < -330 then some { zero with negative := d.negative }
    else if d.exponent ≥ 0 then
      nearest d.negative (d.coefficient * tenTo d.exponent.toNat * one) 1
    else nearest d.negative (d.coefficient * one) (tenTo (-d.exponent).toNat)

/-! ## 2. The shortest numeral -/

/-- The values that read back as a magnitude, in quarters of a quantum: halfway to each neighbour,
    the ends included when the significand is even. -/
structure Interval where
  /-- The lower end, in quarters of a quantum. -/
  low : Nat
  /-- The upper end, in quarters of a quantum. -/
  high : Nat
  /-- Whether the ends themselves read back. -/
  closed : Bool

/-- The interval around a magnitude. Below a power of two the neighbour is half as far, except at
    the smallest spacing. -/
def interval (n : Nat) : Interval :=
  let s := spacing n
  let below := if n = 1 <<< n.log2 ∧ 52 < n.log2 then s else 2 * s
  ⟨4 * n - below, 4 * n + 2 * s, n / s % 2 == 0⟩

/-- Whether the quotient `num / den` of quarters lies in the interval. -/
def Interval.holds (i : Interval) (num den : Nat) : Bool :=
  if i.closed then i.low * den ≤ num && num ≤ i.high * den
  else i.low * den < num && num < i.high * den

/-- The decimal exponent of a magnitude other than zero: `10^e ≤ n / one < 10^(e+1)`. -/
def decimalExponent (n : Nat) : Int := (digitCount (n * tenTo 400 / one) : Int) - 401

/-- The numeral of `digits` digits that reads back as the magnitude, if there is one. -/
def numeralOfSize (n : Nat) (digits : Nat) : Option (Nat × Int) :=
  let p := decimalExponent n - digits + 1
  let up := tenTo (-p).toNat
  let den := one * tenTo p.toNat
  let c := n * up / den
  let r := n * up % den
  let i := interval n
  let lowHits := i.holds (4 * c * den) up
  let highHits := i.holds (4 * (c + 1) * den) up
  match lowHits, highHits with
  | false, false => none
  | true, false => some (c, p)
  | false, true => some (c + 1, p)
  | true, true =>
    if 2 * r < den ∨ (2 * r = den ∧ c % 2 = 0) then some (c, p) else some (c + 1, p)

/-- Moves trailing zeros of a coefficient into its exponent, at most the given number of them. -/
def stripZeros : Nat → Nat × Int → Nat × Int
  | 0, x => x
  | steps + 1, (c, e) => if c % 10 = 0 then stripZeros steps (c / 10, e + 1) else (c, e)

/-- The shortest numeral that reads back as the double. -/
def shortest (d : Double) : Decimal :=
  if d.quanta = 0 then ⟨d.negative, 0, 0⟩
  else
    match (List.range 17).findSome? (fun k => numeralOfSize d.quanta (k + 1)) with
    | some (c, e) =>
      let x := stripZeros 17 (c, e)
      ⟨d.negative, x.1, x.2⟩
    | none => ⟨d.negative, 0, 0⟩

end Double

/-! ## 3. Writing -/

/-- Where a numeral is written positionally: decimal exponents from `leastFixed` up to, but not
    including, `firstScientific`. -/
structure Layout where
  /-- The smallest decimal exponent written positionally. -/
  leastFixed : Int
  /-- The smallest decimal exponent above it that is written with an exponent. -/
  firstScientific : Int

/-- Numbers are written positionally from `10^-5` up to, but not including, `10^16`. -/
def Layout.document : Layout := ⟨-5, 16⟩

/-- A run of zeros. -/
def zeros (n : Nat) : String := String.ofList (List.replicate n '0')

/-- Digits with the point after the first `n` of them; at least one digit stands on either side. -/
def positional (digits : List Char) (n : Int) : String :=
  if n ≤ 0 then "0." ++ zeros (-n).toNat ++ String.ofList digits
  else if digits.length ≤ n.toNat then
    String.ofList digits ++ zeros (n.toNat - digits.length) ++ ".0"
  else String.ofList (digits.take n.toNat) ++ "." ++ String.ofList (digits.drop n.toNat)

/-- Digits with the point after the first of them, and a signed exponent; a lone digit has no
    point. -/
def scientific (digits : List Char) (e : Int) : String :=
  let fraction := digits.drop 1
  String.ofList (digits.take 1) ++ (if fraction.isEmpty then "" else "." ++ String.ofList fraction)
    ++ "e" ++ (if e < 0 then "-" else "+") ++ toString e.natAbs

/-- The text of a numeral. Zero is written with one decimal. -/
def Decimal.render (layout : Layout) (d : Decimal) : String :=
  let digits := (toString d.coefficient).toList
  let point : Int := digits.length + d.exponent
  let body :=
    if d.coefficient = 0 then "0.0"
    else if layout.leastFixed ≤ point - 1 ∧ point - 1 < layout.firstScientific then
      positional digits point
    else scientific digits (point - 1)
  if d.negative then "-" ++ body else body

/-- The text of a double in a document: the fewest digits that read back. -/
def Double.text (d : Double) : String := d.shortest.render Layout.document

end QueryAlgebra
