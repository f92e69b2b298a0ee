import LetDef.Syntax.Program
import LetDef.Ty

/-!
# Symbols

What names stand for: variables, which hold an object, and functions.
-/

namespace LetDef

/-- A value and the scope of the members that can be reached through it. -/
structure Object where
  value : Value
  members : Option Scope := none
deriving DecidableEq, Repr

namespace Object

/-- The object of a value without members. -/
def of (v : Value) : Object :=
  ⟨v, none⟩

/-- The object of an unset variable. -/
def unset : Object :=
  of .nil

/-- The equality of the language, for which members do not count. -/
def same (a b : Object) : Bool :=
  a.value.same b.value

/-- An object with its kind. -/
def text (o : Object) : String :=
  "PlcObject(" ++ o.value.quoted ++ ")"

end Object

/-- A named place for an object. -/
structure Variable where
  name : String
  jvmName : String
  type : Ty
  constant : Bool
  value : Object
deriving DecidableEq, Repr

/-- A variable with all its parts. -/
def Variable.text (v : Variable) : String :=
  "Variable(" ++ (if v.constant then "const " else "") ++ v.name ++ ": " ++ v.type.name
    ++ ", value=" ++ v.value.text ++ ")"

/-- A function that is no method. -/
inductive Native where
  /-- Yields nil. Analysis, which calls no functions, takes all that it defines for this one. -/
  | nothing
  /-- Prints its first argument and yields nil. -/
  | print
  /-- A function of the host, which knows it by a key. -/
  | host (key : String)
deriving DecidableEq, Repr

/-- What a function does: a native, or a method in the scope of its definition. -/
inductive Body where
  | native (n : Native)
  | method (m : Method) (scope : Scope)
deriving Repr

/-- A function. Its name and its number of parameters identify it within a frame. -/
structure Function where
  name : String
  jvmName : String
  parameters : List Ty
  returns : Ty
  body : Body
deriving Repr

namespace Function

/-- The number of parameters. -/
def arity (f : Function) : Nat :=
  f.parameters.length

/-- A function with the types of its parameters and its result. -/
def text (f : Function) : String :=
  "Function(" ++ f.name ++ "(" ++ ", ".intercalate (f.parameters.map Ty.name) ++ ") -> "
    ++ f.returns.name ++ ")"

end Function

end LetDef
