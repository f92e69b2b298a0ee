import LetDef.Execution.Fault

/-!
# Binary operators

The operators that need both operands. The logical ones, which may leave out the right operand,
are part of evaluation.
-/

namespace LetDef.Execution

/-- Why an operator yields no value. -/
inductive Refusal where
  | cause (c : Cause)
  | tooManyDigits
deriving DecidableEq, Repr

/-- Orders two values of one kind; nil has no order. -/
def compare? : Value → Value → Option Ordering
  | .boolean a, .boolean b => some (compare a.toNat b.toNat)
  | .text a, .text b => some (compare a b)
  | .integer a, .integer b => some (compare a b)
  | .decimal a, .decimal b => some (a.compareValue b)
  | _, _ => none

/-- The test of an ordering that an operator stands for. -/
def orderTest? : String → Option (Ordering → Bool)
  | "<" => some (· == .lt)
  | "<=" => some (· != .gt)
  | ">" => some (· == .gt)
  | ">=" => some (· != .lt)
  | _ => none

/-- Whether either value is a text. -/
def joins : Value → Value → Bool
  | .text _, _ => true
  | _, .text _ => true
  | _, _ => false

/-- The texts of two values one behind the other. -/
def join (left right : Value) : Except Refusal Value :=
  match left.render?, right.render? with
  | some a, some b => .ok (.text (a ++ b))
  | _, _ => .error .tooManyDigits

/-- The arithmetic operators. -/
def isArithmetic (operator : String) : Bool :=
  ["+", "-", "*", "/"].contains operator

/-- An arithmetic operation on integers; whatever is not a sum, difference or product divides. -/
def integerOperation (operator : String) (a b : Int) : Except Refusal Value :=
  if operator = "+" then .ok (.integer (a + b))
  else if operator = "-" then .ok (.integer (a - b))
  else if operator = "*" then .ok (.integer (a * b))
  else if b = 0 then .error (.cause .divisionByZero)
  else .ok (.integer (Number.divideTruncated a b))

/-- An arithmetic operation on decimals; whatever is not a sum, difference or product divides. -/
def decimalOperation (operator : String) (a b : Decimal) : Except Refusal Value :=
  if operator = "+" then .ok (.decimal (a.add b))
  else if operator = "-" then .ok (.decimal (a.sub b))
  else if operator = "*" then .ok (.decimal (a.mul b))
  else if b.isZero then .error (.cause .divisionByZero)
  else
    match a.div? b with
    | some q => .ok (.decimal q)
    | none => .error .tooManyDigits

/-- The value of a binary operation. -/
def operate (operator : String) (left right : Value) : Except Refusal Value :=
  if operator = "==" then .ok (.boolean (left.same right))
  else if operator = "!=" then .ok (.boolean !(left.same right))
  else
    match orderTest? operator with
    | some test =>
      match compare? left right with
      | some order => .ok (.boolean (test order))
      | none => .error (.cause (.invalidOperands operator left right))
    | none =>
      if operator = "+" && joins left right then join left right
      else if !isArithmetic operator then .error (.cause (.unknownOperator operator))
      else
        match left, right with
        | .integer a, .integer b => integerOperation operator a b
        | .decimal a, .decimal b => decimalOperation operator a b
        | _, _ => .error (.cause (.invalidOperands operator left right))

end LetDef.Execution
