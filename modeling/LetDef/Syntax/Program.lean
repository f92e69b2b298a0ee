import LetDef.Syntax.Numbering

/-!
# Programs

A program is a list of fields and a list of methods. As a tree it is a node like any other.
-/

namespace LetDef

/-- A global variable, with a declared type, a first value, or both. -/
structure Field where
  mark : Mark := {}
  name : String
  typeName : Option String
  constant : Bool
  value : Node
deriving Repr

/-- A method. A tree built by hand may have more parameters than parameter types, or fewer. -/
structure Method where
  mark : Mark := {}
  name : String
  parameters : List String
  parameterTypes : List String
  returnType : Option String
  body : List Node
deriving Repr

/-- Fields, then methods. -/
structure Program where
  mark : Mark := {}
  fields : List Field
  methods : List Method
deriving Repr

/-! ### As trees -/

/-- The field as a tree. -/
def Field.toNode (f : Field) : Node :=
  .field f.mark f.name f.typeName f.constant f.value

/-- The method as a tree. -/
def Method.toNode (m : Method) : Node :=
  .method m.mark m.name m.parameters m.parameterTypes m.returnType m.body

/-- The program as a tree. -/
def Program.toNode (p : Program) : Node :=
  .program p.mark (p.fields.map Field.toNode) (p.methods.map Method.toNode)

/-- The field that a tree is, if it is one. -/
def Field.ofNode? : Node → Option Field
  | .field mark name typeName constant value => some ⟨mark, name, typeName, constant, value⟩
  | _ => none

/-- The method that a tree is, if it is one. -/
def Method.ofNode? : Node → Option Method
  | .method mark name parameters parameterTypes returnType body =>
    some ⟨mark, name, parameters, parameterTypes, returnType, body⟩
  | _ => none

/-- The program that a tree is, if it is one. -/
def Program.ofNode? : Node → Option Program
  | .program mark fields methods => do
    some ⟨mark, ← fields.mapM Field.ofNode?, ← methods.mapM Method.ofNode?⟩
  | _ => none

/-- The expression that a node has for its value, if its kind has one and it is not omitted. -/
def Node.ownValue : Node → Node
  | .declare _ _ _ value => value
  | .assign _ _ value => value
  | .giveBack _ value => value
  | .field _ _ _ _ value => value
  | _ => .absent

/-- What a fault in the declaration of the field points at. -/
def Field.site (f : Field) : Site :=
  ⟨some .field, f.mark.position⟩

/-- What a fault in the declaration of the method points at. -/
def Method.site (m : Method) : Site :=
  ⟨some .method, m.mark.position⟩

/-- What a fault of the whole program points at. -/
def Program.site (p : Program) : Site :=
  ⟨some .program, p.mark.position⟩

/-! ### Numbering -/

/-- The field with its nodes numbered from `k` on, and the next number. -/
def Field.numberFrom (k : Nat) (f : Field) : Field × Nat :=
  let (value, next) := f.value.numberFrom (k + 1)
  ({ f with mark := f.mark.numbered k, value := value }, next)

/-- The method with its nodes numbered from `k` on, and the next number. -/
def Method.numberFrom (k : Nat) (m : Method) : Method × Nat :=
  let (body, next) := Node.numberFrom.all (k + 1) m.body
  ({ m with mark := m.mark.numbered k, body := body }, next)

/-- Numbers several parts one after the other. -/
def numberAll {α : Type} (number : Nat → α → α × Nat) (k : Nat) : List α → List α × Nat
  | [] => ([], k)
  | a :: as =>
    let (a, next) := number k a
    let (as, next) := numberAll number next as
    (a :: as, next)

/-- The program with its nodes numbered. -/
def Program.numbered (p : Program) : Program :=
  let (fields, next) := numberAll Field.numberFrom 1 p.fields
  let (methods, _) := numberAll Method.numberFrom next p.methods
  { p with fields := fields, methods := methods }

end LetDef
