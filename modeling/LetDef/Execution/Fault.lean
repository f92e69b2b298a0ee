import LetDef.Store.NameError
import LetDef.Syntax.Node

/-!
# Run-time faults

Why a run stops.
-/

namespace LetDef.Execution

/-- What goes wrong in a run. -/
inductive Cause where
  | naming (e : NameError)
  | notBoolean (v : Value)
  | invalidOperands (operator : String) (left right : Value)
  | unknownOperator (operator : String)
  | divisionByZero
  | constantAssignment (name : String)
  | invalidTarget
  | missingMain
  | wrongArity (name : String) (expected received : Nat)
  | callDepth
  | missingCondition
  | unsupportedStatement (kind : String)
  | unsupportedExpression (kind : String)
deriving DecidableEq, Repr

/-- What goes wrong, and where. -/
structure Fault where
  cause : Cause
  site : Site
deriving DecidableEq, Repr

/-- Why a run stops short of a value. -/
inductive Halt where
  | fault (f : Fault)
  /-- A name is not resolved, and no rule has made a fault of it. -/
  | naming (e : NameError)
  /-- Calls and expressions are nested too deeply. -/
  | tooDeep
  /-- An integer has too many digits to be written. -/
  | tooManyDigits
  /-- A literal holds a list, which is no value. -/
  | notAValue
  /-- A tree is no program: it has other parts than fields and methods, or objects in it that are no
  nodes. -/
  | misfit
  /-- A native has no argument to work on. -/
  | missingArgument
  /-- What an operator finds is a decimal above the range of exponents. -/
  | overflow (operator : String)
  /-- A function of the host stops with an error of its own, which has a name. -/
  | host (error : String)
  /-- A loop does not end within the fuel it is given. -/
  | outOfFuel
deriving DecidableEq, Repr

namespace Cause

/-- The kind of a value that is no truth value. -/
def receivedName : Value → String
  | .nil => "NIL"
  | v => v.kindName

/-- What goes wrong, in words. -/
def message : Cause → String
  | .naming e => e.message
  | .notBoolean v => "Expected a Boolean value, received " ++ receivedName v
  | .invalidOperands operator left right =>
    "Invalid operands for '" ++ operator ++ "': " ++ left.kindName ++ " and " ++ right.kindName
  | .unknownOperator operator => "Unknown binary operator '" ++ operator ++ "'"
  | .divisionByZero => "Division by zero"
  | .constantAssignment name => "Cannot assign to constant '" ++ name ++ "'"
  | .invalidTarget => "Only variables and fields can be assigned to"
  | .missingMain => "Main function not found"
  | .wrongArity name expected received =>
    "'" ++ name ++ "' expects " ++ toString expected ++ " arguments, received "
      ++ toString received
  | .callDepth => "Call depth exceeded"
  | .missingCondition => "A FOR loop requires a condition"
  | .unsupportedStatement kind => "Unsupported statement: " ++ kind
  | .unsupportedExpression kind => "Unsupported expression: " ++ kind

/-- The code of a cause. -/
def code? : Cause → Option String
  | .naming e => some (if e.isDuplicate then "R002" else "R001")
  | .notBoolean _ => some "R010"
  | .invalidOperands .. => some "R011"
  | .unknownOperator _ => some "R011"
  | .divisionByZero => some "R020"
  | .constantAssignment _ => some "R030"
  | .invalidTarget => some "R031"
  | .missingMain => some "R040"
  | .wrongArity .. => some "R041"
  | .callDepth => some "R042"
  | .missingCondition => none
  | .unsupportedStatement _ => none
  | .unsupportedExpression _ => none

/-- What may help. -/
def help? : Cause → Option String
  | .divisionByZero => some "Check the divisor before dividing."
  | .callDepth => some "Check for recursion without a reachable base case."
  | _ => none

/-- The suggestions of a cause. -/
def suggestions? : Cause → Option (List String)
  | .naming e => e.suggestions?
  | _ => none

end Cause

/-- The report of a fault. -/
def Fault.report (f : Fault) : Report where
  message := f.cause.message
  position := f.site.position
  code := f.cause.code?
  help := f.cause.help?
  suggestions := f.cause.suggestions?

end LetDef.Execution
