import LetDef.Number.Digits
import LetDef.Number.Division

/-!
# Decimals

A decimal is a sign, a coefficient and an exponent of ten. The exponent is part of the number, so
`2.5` and `2.50` are two decimals of one value, and zero has a sign. Sum, difference and product
are exact; a quotient keeps the exponent of the dividend. Which exponents there can be is a matter
of its own: a result is confined to their range after it has been found exactly. The number of
digits is not limited.
-/

namespace LetDef

/-- The number `± coefficient * 10 ^ exponent`. -/
structure Decimal where
  negative : Bool
  coefficient : Nat
  exponent : Int
deriving DecidableEq, Repr

namespace Decimal

/-! ### Values -/

/-- The coefficient with its sign. -/
def signed (d : Decimal) : Int :=
  if d.negative then -(d.coefficient : Int) else d.coefficient

/-- The signed coefficient of the same value at the exponent `e`, which is not above the own. -/
def scaled (d : Decimal) (e : Int) : Int :=
  d.signed * Number.powerOfTen (d.exponent - e).toNat

/-- The value of the last digit's place. -/
def unit (d : Decimal) : Rat :=
  10 ^ d.exponent

/-- The number that a decimal stands for. -/
def toRat (d : Decimal) : Rat :=
  d.signed * d.unit

/-- An integer as a decimal without fraction digits. -/
def ofInt (n : Int) : Decimal :=
  ⟨n < 0, n.natAbs, 0⟩

/-- Whether the value is zero. -/
def isZero (d : Decimal) : Bool :=
  d.coefficient == 0

/-- Orders two decimals by value. -/
def compareValue (a b : Decimal) : Ordering :=
  let e := min a.exponent b.exponent
  compare (a.scaled e) (b.scaled e)

/-- Whether two decimals have the same value. -/
def sameValue (a b : Decimal) : Bool :=
  a.compareValue b == .eq

/-- Whether two decimals have the same value and the same exponent. -/
def same (a b : Decimal) : Bool :=
  a.sameValue b && a.exponent == b.exponent

/-! ### Arithmetic -/

/-- The decimal with the other sign. -/
def neg (d : Decimal) : Decimal :=
  { d with negative := !d.negative }

/-- The exact sum at the smaller exponent. A zero sum is negative if both terms are. -/
def add (a b : Decimal) : Decimal :=
  let e := min a.exponent b.exponent
  let n := a.scaled e + b.scaled e
  ⟨if n = 0 then a.negative && b.negative else n < 0, n.natAbs, e⟩

/-- The exact difference. -/
def sub (a b : Decimal) : Decimal :=
  a.add b.neg

/-- The exact product. -/
def mul (a b : Decimal) : Decimal :=
  ⟨a.negative != b.negative, a.coefficient * b.coefficient, a.exponent + b.exponent⟩

/-! ### Text -/

/-- The exponent of the first digit. -/
def adjusted (d : Decimal) : Int :=
  d.exponent + ((Number.digits d.coefficient).length - 1 : Nat)

/-- The digits around a point that stands before the last `fraction` digits. -/
def pointed (ds : List Char) (fraction : Nat) : List Char :=
  let ds := List.replicate (fraction + 1 - ds.length) '0' ++ ds
  ds.take (ds.length - fraction) ++ '.' :: ds.drop (ds.length - fraction)

/-- The digits with a point behind the first, where there are more. -/
def leading : List Char → List Char
  | [] => []
  | [d] => [d]
  | d :: ds => d :: '.' :: ds

/-- An exponent with its sign. -/
def exponentText (e : Int) : List Char :=
  (if e < 0 then '-' else '+') :: Number.digits e.natAbs

/-- The decimal without its sign: positional while the exponent is not positive and the first
digit is within six places of the point, scientific otherwise. -/
def unsignedText (d : Decimal) : List Char :=
  let ds := Number.digits d.coefficient
  if d.exponent ≤ 0 && -6 ≤ d.adjusted then
    if d.exponent = 0 then ds else pointed ds (-d.exponent).toNat
  else leading ds ++ 'E' :: exponentText d.adjusted

/-- The decimal as text, which determines it. -/
def text (d : Decimal) : String :=
  String.ofList (if d.negative then '-' :: d.unsignedText else d.unsignedText)

/-- The exponent that a text behind the digits gives. -/
def readExponent? : List Char → Option Int
  | [] => some 0
  | 'E' :: cs =>
    let (negative, ds) := Number.splitSign cs
    if ds.isEmpty || !ds.all Char.isDigit then none
    else if negative then some (-(Number.ofDigits ds)) else some (Number.ofDigits ds)
  | _ => none

/-- The decimal that a text of digits, with an optional sign, point and exponent, stands for. -/
def ofText? (s : String) : Option Decimal := do
  let (negative, cs) := Number.splitSign s.toList
  let whole := cs.takeWhile Char.isDigit
  let (fraction, rest) := match cs.dropWhile Char.isDigit with
    | '.' :: cs => (cs.takeWhile Char.isDigit, cs.dropWhile Char.isDigit)
    | cs => ([], cs)
  if whole.isEmpty && fraction.isEmpty then none
  let e ← readExponent? rest
  some ⟨negative, Number.ofDigits (whole ++ fraction), e - fraction.length⟩

/-! ### Quotients -/

/-- The quotient at the exponent of the dividend, to the nearest with ties to even. It is put
together as a text, in which its coefficient may have too many digits. -/
def div? (a b : Decimal) : Option Decimal := do
  let quotient := a.toRat / b.toRat
  let coefficient := Number.roundNearest (quotient / 10 ^ a.exponent)
  let digits ← Number.integerText? coefficient
  ofText? (digits ++ "E" ++ Number.integerText a.exponent)

/-! ### The range of exponents -/

/-- The largest exponent that the first digit may have. -/
def maxExponent : Int := 999999999999999999

/-- The least exponent. -/
def minExponent : Int := -1999999999999999997

/-- The coefficient without its last `shift` digits, rounded to the nearest with ties to even. -/
def shifted (coefficient shift : Nat) : Nat :=
  if (Number.digits coefficient).length < shift then 0
  else (Number.roundNearest ((coefficient : Rat) / Number.powerOfTen shift)).toNat

/-- The decimal in the range of exponents. Zero takes the nearest exponent, a number with digits
below the range is rounded, and one above it is too large. -/
def confine? (d : Decimal) : Option Decimal :=
  if d.coefficient = 0 then
    some { d with exponent := max minExponent (min d.exponent maxExponent) }
  else if 0 < d.exponent && maxExponent < d.adjusted then none
  else if d.exponent < minExponent then
    some { d with
      coefficient := shifted d.coefficient (minExponent - d.exponent).toNat
      exponent := minExponent }
  else some d

end Decimal

end LetDef
