/-!
# Division

Two ways to round a quotient: toward zero, and to the nearest integer with ties to the even one.
-/

namespace LetDef.Number

/-- The quotient of the absolute values, with a sign if one of the numbers is negative. -/
def divideTruncated (l r : Int) : Int :=
  let quotient : Int := (l.natAbs / r.natAbs : Nat)
  if decide (l < 0) != decide (r < 0) then -quotient else quotient

/-- The integer nearest to a number, the even one of two that are equally near. -/
def roundNearest (x : Rat) : Int :=
  let whole := x.num / x.den
  let twice := 2 * (x.num % x.den)
  if twice < x.den then whole
  else if x.den < twice then whole + 1
  else if whole % 2 = 0 then whole else whole + 1

end LetDef.Number
