import LetDef.Store.NameError
import LetDef.Syntax.Node

/-!
# Analysis faults

Why analysis refuses a program.
-/

namespace LetDef.Analysis

/-- What is wrong with a program. -/
inductive Cause where
  | typeMismatch (expected found : Ty)
  | naming (e : NameError)
  | undeterminedType (name : String)
  | invalidOperands (operator : String) (left right : Ty)
  | unknownOperator (operator : String)
  | tooDeep
  | constantAssignment (name : String)
  | invalidTarget
  | constantWithoutValue (name : String)
  | emptyBody (construct : String)
  | missingCondition
  | notACall
  | missingMain
  | mainReturns (t : Ty)
  | unsupportedStatement (kind : String)
  | unsupportedExpression (kind : String)
  | unknownLiteral (sort : String)
deriving DecidableEq, Repr

/-- What is wrong, and where. -/
structure Fault where
  cause : Cause
  site : Site
deriving DecidableEq, Repr

/-- Why analysis stops. -/
inductive Halt where
  | fault (f : Fault)
  /-- A name is not resolved, and no rule has made a fault of it. -/
  | naming (e : NameError)
  /-- A method that is called on a receiver has no parameter for it. -/
  | missingParameter
  /-- A node that has its meaning already. -/
  | decorated (kind : Node.Kind)
  /-- The tree is nested too deeply. -/
  | tooDeep
  /-- The tree is no program: it has other parts than fields and methods, or objects in it that are
  no nodes. -/
  | misfit
deriving DecidableEq, Repr

namespace Cause

/-- What is wrong, in words. -/
def message : Cause → String
  | .typeMismatch expected found =>
    "Type mismatch: expected " ++ expected.name ++ ", found " ++ found.name
  | .naming e => e.message
  | .undeterminedType name => "Cannot determine the type of '" ++ name ++ "'"
  | .invalidOperands operator left right =>
    "Invalid operands for '" ++ operator ++ "': " ++ left.name ++ " and " ++ right.name
  | .unknownOperator operator => "Unknown binary operator '" ++ operator ++ "'"
  | .tooDeep => "Expression nesting too deep"
  | .constantAssignment name => "Cannot assign to constant '" ++ name ++ "'"
  | .invalidTarget => "Only variables and fields can be assigned to"
  | .constantWithoutValue name => "Constant field '" ++ name ++ "' must have an initial value"
  | .emptyBody construct => "The body of a " ++ construct ++ " statement cannot be empty"
  | .missingCondition => "A FOR loop requires a condition"
  | .notACall => "Expression statements must be function calls"
  | .missingMain => "A main function with zero parameters is required"
  | .mainReturns t => "The main function must return Integer, not " ++ t.name
  | .unsupportedStatement kind => "Unsupported statement: " ++ kind
  | .unsupportedExpression kind => "Unsupported expression: " ++ kind
  | .unknownLiteral sort => "Unknown literal type '" ++ sort ++ "'"

/-- The code of a cause. -/
def code? : Cause → Option String
  | .typeMismatch .. => some "S001"
  | .naming e => some e.code
  | .undeterminedType _ => some "S003"
  | .invalidOperands .. => some "S004"
  | .unknownOperator _ => some "S004"
  | .tooDeep => some "S005"
  | .constantAssignment _ => some "S020"
  | .invalidTarget => some "S021"
  | .constantWithoutValue _ => some "S022"
  | .emptyBody _ => some "S030"
  | .missingCondition => some "S031"
  | .notACall => some "S032"
  | .missingMain => some "S040"
  | .mainReturns _ => some "S041"
  | .unsupportedStatement _ => none
  | .unsupportedExpression _ => none
  | .unknownLiteral _ => none

/-- What may help. -/
def help? : Cause → Option String
  | .typeMismatch expected found =>
    some ("A value of type '" ++ found.name ++ "' cannot be used where '" ++ expected.name
      ++ "' is expected.")
  | .undeterminedType _ => some "Give the variable a type name or an initial value."
  | .tooDeep => some "Split the expression across several declarations."
  | .constantAssignment _ => some "Declare the field without CONST if it needs to change."
  | .notACall => some "A value computed without a call would be discarded."
  | .missingMain => some "Add 'DEF main(): Integer DO ... END'."
  | _ => none

/-- The suggestions of a cause. -/
def suggestions? : Cause → Option (List String)
  | .naming e => e.suggestions?
  | _ => none

end Cause

/-- The report of a fault. -/
def Fault.report (f : Fault) : Report where
  message := f.cause.message
  position := f.site.position
  code := f.cause.code?
  help := f.cause.help?
  suggestions := f.cause.suggestions?

end LetDef.Analysis
