/-!
# Digits

Integers as decimal text, and the limit on the length of such a text.
-/

namespace LetDef.Number

/-- Ten to the power `n`. -/
def powerOfTen (n : Nat) : Nat := Nat.pow 10 n

/-- The most decimal digits with which an integer is written or read. -/
def maxDigits : Nat := 4300

/-- The least natural number that has too many digits. -/
def digitBound : Nat := powerOfTen maxDigits

/-- The decimal digits of `n`, the most significant first. -/
def digits (n : Nat) : List Char :=
  Nat.toDigits 10 n

/-- The number whose decimal digits are `cs`. -/
def ofDigits (cs : List Char) : Nat :=
  cs.foldl (fun n c => 10 * n + (c.toNat - '0'.toNat)) 0

/-- A leading sign, true if negative, and the rest of a text. -/
def splitSign : List Char → Bool × List Char
  | '-' :: cs => (true, cs)
  | '+' :: cs => (false, cs)
  | cs => (false, cs)

/-- The integer in decimal. -/
def integerText (n : Int) : String :=
  String.ofList (if n < 0 then '-' :: digits n.natAbs else digits n.natAbs)

/-- The integer in decimal, unless that takes too many digits. -/
def integerText? (n : Int) : Option String :=
  if n.natAbs < digitBound then some (integerText n) else none

/-- The integer that a text of an optional sign and digits stands for, unless it has too many. -/
def readInteger? (s : String) : Option Int :=
  let (negative, cs) := splitSign s.toList
  if cs.isEmpty || !cs.all Char.isDigit || maxDigits < cs.length then none
  else if negative then some (-(ofDigits cs)) else some (ofDigits cs)

end LetDef.Number
