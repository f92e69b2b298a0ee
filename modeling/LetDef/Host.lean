import LetDef.Store.Basic

/-!
# Host names

The names that a host provides to a program: types with members, variables whose values may have
members of their own, and functions, which the host knows by keys.
-/

namespace LetDef.Host

/-- A function under a name, with its types by name and the key by which the host knows it. -/
structure Function where
  name : String
  jvmName : String
  parameters : List String
  returns : String
  key : String
deriving Repr

/-- A variable with its type by name. Its value may have members. -/
inductive Variable where
  | mk (name jvmName typeName : String) (constant : Bool) (value : Datum)
      (members : Option (List Variable × List Function))
deriving Repr, Inhabited

/-- A type and its members. -/
structure TypeEntry where
  name : String
  jvmName : String
  vars : List Variable
  functions : List Function
deriving Repr

/-- All that a host provides. -/
structure Names where
  types : List TypeEntry := []
  vars : List Variable := []
  functions : List Function := []
deriving Repr

/-- Why names cannot be provided. -/
inductive Trouble where
  | naming (e : NameError)
  | notAValue
deriving DecidableEq, Repr

/-- A step of providing names. -/
abbrev Provide := StateT Store (Except Trouble)

/-- The outcome of resolving a name. -/
def resolve {α : Type} (result : Except NameError α) : Provide α :=
  match result with
  | .ok a => pure a
  | .error e => throw (.naming e)

/-- A new scope on its own. -/
def enter : Provide Scope :=
  modifyGet (·.enter none)

/-- The type of a name: one that the host adds, or a built-in one. -/
def typeOf (added : List Ty) (name : String) : Provide Ty :=
  match added.find? (·.name == name) with
  | some t => pure t
  | none => resolve (Ty.ofName name)

/-- Defines a function in a scope. -/
def defineFunction (added : List Ty) (scope : Scope) (f : Function) : Provide Unit := do
  let parameters ← f.parameters.mapM (typeOf added)
  let returns ← typeOf added f.returns
  let g : LetDef.Function := ⟨f.name, f.jvmName, parameters, returns, .native (.host f.key)⟩
  set (← resolve ((← get).defineFunction scope g))

/-- Defines a variable in a scope, its members first. -/
def defineVariable (added : List Ty) (scope : Scope) : Variable → Provide Unit
  | .mk name jvmName typeName constant value members => do
    let t ← typeOf added typeName
    let some v := value.value? | throw .notAValue
    let memberScope ← match members with
      | none => pure none
      | some (vars, functions) => do
        let inner ← enter
        all inner vars
        functions.forM (defineFunction added inner)
        pure (some inner)
    set (← resolve ((← get).defineVariable scope ⟨name, jvmName, t, constant, ⟨v, memberScope⟩⟩))
where
  /-- Defines several variables in a scope. -/
  all (scope : Scope) : List Variable → Provide Unit
    | [] => pure ()
    | v :: vs => do
      defineVariable added scope v
      all scope vs

/-- A type for an entry, without its members yet. -/
def addType (entry : TypeEntry) : Provide Ty := do
  let scope ← enter
  return .host entry.name entry.jvmName scope.frame

/-- Defines the members of an added type. -/
def defineMembers (added : List Ty) (t : Ty) (entry : TypeEntry) : Provide Unit := do
  match t.members? with
  | none => pure ()
  | some scope =>
    entry.vars.forM (defineVariable added scope)
    entry.functions.forM (defineFunction added scope)

/-- Provides the names in a scope of their own. -/
def provide (names : Names) : Provide Scope := do
  let added ← names.types.mapM addType
  (added.zip names.types).forM fun (t, entry) => defineMembers added t entry
  let scope ← enter
  names.vars.forM (defineVariable added scope)
  names.functions.forM (defineFunction added scope)
  return scope

end LetDef.Host
