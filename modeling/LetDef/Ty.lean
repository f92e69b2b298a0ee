import LetDef.Store.Scope

/-!
# Types

The built-in types, and types that a host adds. Only a host type has members.
-/

namespace LetDef

/-- A type. Host types are told apart by the frame of their members. -/
inductive Ty where
  | any
  | nil
  | comparable
  | boolean
  | integer
  | decimal
  | character
  | string
  | host (name jvmName : String) (members : FrameId)
deriving DecidableEq, Repr, Inhabited

namespace Ty

/-- The name of a type in source texts and messages. -/
def name : Ty → String
  | .any => "Any"
  | .nil => "Nil"
  | .comparable => "Comparable"
  | .boolean => "Boolean"
  | .integer => "Integer"
  | .decimal => "Decimal"
  | .character => "Character"
  | .string => "String"
  | .host name _ _ => name

/-- The name of a type on the virtual machine. -/
def jvmName : Ty → String
  | .any => "Object"
  | .nil => "Void"
  | .comparable => "Comparable"
  | .boolean => "boolean"
  | .integer => "int"
  | .decimal => "double"
  | .character => "char"
  | .string => "String"
  | .host _ jvmName _ => jvmName

/-- A type with its kind. -/
def text (t : Ty) : String :=
  "Type(" ++ t.name ++ ")"

/-- The scope of the members of a type. -/
def members? : Ty → Option Scope
  | .host _ _ members => some ⟨members, []⟩
  | _ => none

/-- The built-in types. -/
def builtin : List Ty :=
  [.any, .nil, .comparable, .boolean, .integer, .decimal, .character, .string]

/-- The built-in type of a name. -/
def ofName? (name : String) : Option Ty :=
  builtin.find? (·.name == name)

/-- Whether values of the type have an order. -/
def isOrdered : Ty → Bool
  | .integer | .decimal | .character | .string => true
  | _ => false

/-- Whether values of the type are numbers. -/
def isNumeric : Ty → Bool
  | .integer | .decimal => true
  | _ => false

/-- Whether a value of the type `source` may stand where `target` is declared. -/
def accepts (target source : Ty) : Bool :=
  target = .any || target = source || (target = .comparable && source.isOrdered)

@[simp] theorem any_accepts (t : Ty) : Ty.any.accepts t = true := rfl

@[simp] theorem accepts_self (t : Ty) : t.accepts t = true := by
  simp [accepts]

end Ty

end LetDef
