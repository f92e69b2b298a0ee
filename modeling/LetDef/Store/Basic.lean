import LetDef.Store.NameError
import LetDef.Store.Symbol

/-!
# Stores

A store holds the frames of all scopes. A name is defined in the frame of a scope and looked up
through its chain, so the nearest definition counts. Within a frame a variable is known by its
name and a function by its name and arity, and neither is defined twice.
-/

namespace LetDef

/-- The symbols of one scope in the order of their definition. -/
structure Frame where
  vars : List Variable := []
  functions : List Function := []
deriving Repr

namespace Frame

/-- The variable of a name. -/
def getVariable? (f : Frame) (name : String) : Option Variable :=
  f.vars.find? (·.name == name)

/-- The function of a name and arity. -/
def getFunction? (f : Frame) (name : String) (arity : Nat) : Option Function :=
  f.functions.find? fun g => g.name == name && g.arity == arity

end Frame

/-- The frames of all scopes. -/
structure Store where
  frames : Array Frame := #[]
deriving Repr

/-- The address of a variable. -/
structure VariableRef where
  frame : FrameId
  name : String
deriving DecidableEq, Repr

/-- The address of a function. -/
structure FunctionRef where
  frame : FrameId
  name : String
  arity : Nat
deriving DecidableEq, Repr

namespace Store

/-! ### Frames -/

/-- The frame at an address; an empty one where there is none. -/
def frame (s : Store) (i : FrameId) : Frame :=
  s.frames[i]?.getD {}

/-- The store with one more frame, and a scope of it inside the given one. -/
def enter (s : Store) (parent : Option Scope) : Scope × Store :=
  (⟨s.frames.size, (parent.map Scope.chain).getD []⟩, ⟨s.frames.push {}⟩)

/-- Changes the frame at an address. -/
def modifyFrame (s : Store) (i : FrameId) (f : Frame → Frame) : Store :=
  ⟨s.frames.modify i f⟩

/-! ### Variables -/

/-- The variable at an address. -/
def getVariable? (s : Store) (ref : VariableRef) : Option Variable :=
  (s.frame ref.frame).getVariable? ref.name

/-- The nearest variable of a name, with its address. -/
def findVariable? (s : Store) (scope : Scope) (name : String) : Option (VariableRef × Variable) :=
  scope.chain.findSome? fun i => ((s.frame i).getVariable? name).map fun v => (⟨i, name⟩, v)

/-- Why a variable cannot be defined in a scope. -/
def variableConflict? (s : Store) (scope : Scope) (name : String) : Option NameError :=
  ((s.frame scope.frame).getVariable? name).map fun _ => .duplicateVariable name

/-- Adds a variable to the frame of a scope. -/
def addVariable (s : Store) (scope : Scope) (v : Variable) : Store :=
  s.modifyFrame scope.frame fun f => { f with vars := f.vars ++ [v] }

/-- Defines a variable in a scope. -/
def defineVariable (s : Store) (scope : Scope) (v : Variable) : Except NameError Store :=
  match s.variableConflict? scope v.name with
  | some e => .error e
  | none => .ok (s.addVariable scope v)

/-- Puts an object into the variable at an address. -/
def setVariable (s : Store) (ref : VariableRef) (o : Object) : Store :=
  s.modifyFrame ref.frame fun f =>
    { f with
      vars := f.vars.map fun v => if v.name == ref.name then { v with value := o } else v }

/-! ### Functions -/

/-- The function at an address. -/
def getFunction? (s : Store) (ref : FunctionRef) : Option Function :=
  (s.frame ref.frame).getFunction? ref.name ref.arity

/-- The nearest function of a name and arity, with its address. -/
def findFunction? (s : Store) (scope : Scope) (name : String) (arity : Nat) :
    Option (FunctionRef × Function) :=
  scope.chain.findSome? fun i =>
    ((s.frame i).getFunction? name arity).map fun g => (⟨i, name, arity⟩, g)

/-- Why a function cannot be defined in a scope. -/
def functionConflict? (s : Store) (scope : Scope) (name : String) (arity : Nat) :
    Option NameError :=
  ((s.frame scope.frame).getFunction? name arity).map fun _ => .duplicateFunction name arity

/-- Adds a function to the frame of a scope. -/
def addFunction (s : Store) (scope : Scope) (g : Function) : Store :=
  s.modifyFrame scope.frame fun f => { f with functions := f.functions ++ [g] }

/-- Defines a function in a scope. -/
def defineFunction (s : Store) (scope : Scope) (g : Function) : Except NameError Store :=
  match s.functionConflict? scope g.name g.arity with
  | some e => .error e
  | none => .ok (s.addFunction scope g)

/-! ### Similar names -/

/-- The names of the variables in reach of a scope. -/
def variableNames (s : Store) (scope : Scope) : List String :=
  scope.chain.flatMap fun i => (s.frame i).vars.map (·.name)

/-- The names of the functions in reach of a scope, each with its arity. -/
def functionNames (s : Store) (scope : Scope) : List String :=
  scope.chain.flatMap fun i => (s.frame i).functions.map fun g => g.name ++ "/" ++ toString g.arity

/-- How far a candidate is from a name; what follows a slash does not count, nor does case. -/
def nameDistance (name candidate : String) : Nat :=
  Text.distance name.toLower (String.ofList (candidate.toList.takeWhile (· ≠ '/'))).toLower

/-- Whether the first candidate comes before the second or is the same: nearer ones first, then
in the order of their texts. -/
def comesFirst (name a b : String) : Bool :=
  let m := nameDistance name a
  let n := nameDistance name b
  m < n || (m == n && decide (a ≤ b))

/-- The candidates no farther from a name than `limit`, at most three, nearest first. -/
def similar (limit : Int) (name : String) (candidates : List String) : List String :=
  let near := candidates.eraseDups.filter fun candidate => nameDistance name candidate ≤ limit
  (near.mergeSort (comesFirst name)).take 3

/-- The distance up to which undefined names have suggestions. -/
def suggestionLimit : Int := 2

/-! ### Looking up -/

/-- The nearest variable of a name, or the names it may be meant for. -/
def lookupVariable (s : Store) (scope : Scope) (name : String) :
    Except NameError (VariableRef × Variable) :=
  match s.findVariable? scope name with
  | some found => .ok found
  | none => .error (.undefinedVariable name (similar suggestionLimit name (s.variableNames scope)))

/-- The nearest function of a name and arity, or the names it may be meant for. -/
def lookupFunction (s : Store) (scope : Scope) (name : String) (arity : Nat) :
    Except NameError (FunctionRef × Function) :=
  match s.findFunction? scope name arity with
  | some found => .ok found
  | none =>
    .error (.undefinedFunction name arity (similar suggestionLimit name (s.functionNames scope)))

/-- The variable of a name among members. Nothing is found where there are none. -/
def lookupField (s : Store) (members : Option Scope) (name : String) :
    Except NameError (VariableRef × Variable) :=
  match members with
  | some scope => s.lookupVariable scope name
  | none => .error (.undefinedVariable name [])

/-- The function of a name and arity among members. Nothing is found where there are none. -/
def lookupMethod (s : Store) (members : Option Scope) (name : String) (arity : Nat) :
    Except NameError (FunctionRef × Function) :=
  match members with
  | some scope => s.lookupFunction scope name arity
  | none => .error (.undefinedFunction name arity [])

/-- A scope with its depth and the numbers of its symbols. -/
def scopeText (s : Store) (scope : Scope) : String :=
  let f := s.frame scope.frame
  "Scope(depth=" ++ toString scope.depth ++ ", " ++ toString f.vars.length ++ " variables, "
    ++ toString f.functions.length ++ " functions)"

end Store

end LetDef
