import LetDef.Report
import LetDef.Text.Distance
import LetDef.Ty

/-!
# Name errors

Why a name cannot be defined or does not stand for anything.
-/

namespace LetDef

/-- What is wrong with a name. -/
inductive NameError where
  | undefinedVariable (name : String) (similar : List String)
  | undefinedFunction (name : String) (arity : Nat) (similar : List String)
  | duplicateVariable (name : String)
  | duplicateFunction (name : String) (arity : Nat)
  | unknownType (name : String) (similar : List String)
deriving DecidableEq, Repr

namespace NameError

/-- A name as a suggestion. -/
def suggestion (name : String) : String :=
  "Did you mean '" ++ name ++ "'?"

/-- What is wrong, in words. -/
def message : NameError → String
  | .undefinedVariable name _ => "The variable '" ++ name ++ "' is not defined in this scope."
  | .undefinedFunction name arity _ =>
    "The function '" ++ name ++ "/" ++ toString arity ++ "' is not defined in this scope."
  | .duplicateVariable name => "The variable '" ++ name ++ "' is already defined in this scope."
  | .duplicateFunction name arity =>
    "The function '" ++ name ++ "/" ++ toString arity ++ "' is already defined in this scope."
  | .unknownType name _ => "Unknown type '" ++ name ++ "'."

/-- The code of an error. -/
def code : NameError → String
  | .undefinedVariable .. | .undefinedFunction .. => "S010"
  | .duplicateVariable .. | .duplicateFunction .. => "S011"
  | .unknownType .. => "S002"

/-- Whether the name was defined before. -/
def isDuplicate : NameError → Bool
  | .duplicateVariable .. | .duplicateFunction .. => true
  | _ => false

/-- The suggestions of an error. An undefined name has a list even if it is empty. -/
def suggestions? : NameError → Option (List String)
  | .undefinedVariable _ similar => some (similar.map suggestion)
  | .undefinedFunction _ _ similar => some (similar.map suggestion)
  | .duplicateVariable _ => none
  | .duplicateFunction _ _ => none
  | .unknownType _ [] => none
  | .unknownType _ similar => some (similar.map suggestion)

/-- The report of an error. -/
def report (e : NameError) : Report where
  message := e.message
  code := some e.code
  suggestions := e.suggestions?

end NameError

/-- The built-in type of a name, or the types it may be meant for. -/
def Ty.ofName (name : String) : Except NameError Ty :=
  match Ty.ofName? name with
  | some t => .ok t
  | none =>
    .error (.unknownType name
      ((Ty.builtin.map Ty.name).filter fun known =>
        Text.distance name.toLower known.toLower ≤ 2))

end LetDef
