import LetDef.Execution.Operator
import LetDef.Store.Basic

/-!
# Steps of a run

A run changes the store and prints. Both last also when it stops. It can be asked to keep a journal
of what it does; nothing else depends on whether it does.
-/

namespace LetDef.Execution

/-! ### Journals -/

/-- What a variable of a run was made for: the declaration of a field or of a local variable, or
the parameter of a method at a position. -/
inductive Origin where
  | declaration (mark : Mark)
  | parameter (method : Mark) (position : Nat)
deriving DecidableEq, Repr

/-- What happens in a run. -/
inductive Event where
  /-- A scope is entered. -/
  | entered (scope : Scope)
  /-- A variable is defined. -/
  | created (origin : Origin) (ref : VariableRef)
  /-- A function is defined. -/
  | defined (ref : FunctionRef)
  /-- The variable that an access stands for in a scope is read. -/
  | read (scope : Scope) (access : Node) (ref : VariableRef)
  /-- The variable that an access stands for in a scope is assigned to. -/
  | assigned (scope : Scope) (access : Node) (ref : VariableRef)
  /-- A function is called by its name in a scope. -/
  | called (scope : Scope) (call : Node) (g : Function)
  /-- An expression yields an object. -/
  | evaluated (expression : Node) (o : Object)
  /-- A call of a method yields an object. -/
  | returned (m : Method) (o : Object)
deriving Repr

/-- An event and the store right after it. -/
structure Moment where
  event : Event
  store : Store
deriving Repr

/-- The moments of a run so far, the latest first. -/
abbrev Journal := List Moment

/-! ### Steps -/

/-- What a run reads and changes. -/
structure World where
  store : Store := {}
  output : String := ""
  /-- The journal, if one is kept. -/
  journal : Option Journal := none

/-- A step of a run. -/
abbrev Run := ExceptT Halt (StateM World)

/-- Records an event where a journal is kept. -/
def note (e : Event) : Run Unit :=
  modify fun world => { world with journal := world.journal.map (⟨e, world.store⟩ :: ·) }

/-- Does a step and records what it yields. -/
def recording {α : Type} (event : α → Event) (step : Run α) : Run α := do
  let a ← step
  note (event a)
  return a

/-- Stops with a fault. -/
def fail {α : Type} (site : Site) (cause : Cause) : Run α :=
  throw (.fault ⟨cause, site⟩)

/-- Stops because calls and expressions are nested too deeply. -/
def tooDeep {α : Type} : Run α :=
  throw .tooDeep

/-- Changes the store by the event. -/
def modifyStore (e : Event) (f : Store → Store) : Run Unit := do
  modify fun world => { world with store := f world.store }
  note e

/-- What a look-up in the store finds. -/
def consult {α : Type} (find : Store → Except NameError α) : Run α := do
  match find (← get).store with
  | .ok a => pure a
  | .error e => throw (.naming e)

/-- Does a step in which a name that is not resolved is a fault at the site. -/
def resolving {α : Type} (site : Site) (step : Run α) : Run α :=
  tryCatch step fun
    | .naming e => fail site (.naming e)
    | halt => throw halt

/-- What a look-up in the store finds, where a failure is a fault at the site. -/
def lookup {α : Type} (site : Site) (find : Store → Except NameError α) : Run α :=
  resolving site (consult find)

/-- A new scope inside the given one. -/
def enter (parent : Scope) : Run Scope :=
  recording .entered do
    modifyGet fun world =>
      let (scope, store) := world.store.enter (some parent)
      (scope, { world with store := store })

/-- Adds a variable to a scope that has none of its name. -/
def newVariable (origin : Origin) (scope : Scope) (v : Variable) : Run Unit := do
  match (← get).store.variableConflict? scope v.name with
  | some e => throw (.naming e)
  | none => modifyStore (.created origin ⟨scope.frame, v.name⟩) (·.addVariable scope v)

/-- Defines a variable in a scope, where a failure is a fault at the site. -/
def addVariable (site : Site) (origin : Origin) (scope : Scope) (v : Variable) : Run Unit :=
  resolving site (newVariable origin scope v)

/-- Adds a function to a scope that has none of its name and arity. -/
def newFunction (scope : Scope) (g : Function) : Run Unit := do
  match (← get).store.functionConflict? scope g.name g.arity with
  | some e => throw (.naming e)
  | none => modifyStore (.defined ⟨scope.frame, g.name, g.arity⟩) (·.addFunction scope g)

/-- Defines a function in a scope, where a failure is a fault at the site. -/
def addFunction (site : Site) (scope : Scope) (g : Function) : Run Unit :=
  resolving site (newFunction scope g)

/-- The text of a value. -/
def render (v : Value) : Run String :=
  match v.render? with
  | some s => pure s
  | none => throw .tooManyDigits

/-- Prints a line. -/
def printLine (line : String) : Run Unit :=
  modify fun world => { world with output := world.output ++ line ++ "\n" }

/-- The first of some arguments. -/
def firstOf : List Object → Run Object
  | [] => throw .missingArgument
  | o :: _ => pure o

/-- What the functions of a host do. A function is called by its key, with its arguments and with
the depth to which rules may still be nested, and it may do anything to the world. -/
structure Natives where
  call (key : String) (arguments : List Object) (depth : Nat) : Run Object

/-- A host without functions. -/
def Natives.none : Natives where
  call _ _ _ := throw (.host "KeyError")

/-- What a native does. -/
def callNative (N : Natives) (n : Native) (arguments : List Object) (depth : Nat) : Run Object :=
  match n with
  | .nothing => pure .unset
  | .print => do
    let o ← firstOf arguments
    printLine (← render o.value)
    return .unset
  | .host key => N.call key arguments depth

/-- Executes statements up to the first that gives back an object. -/
def executeAll (execute : Node → Run (Option Object)) : List Node → Run (Option Object)
  | [] => pure none
  | n :: ns => do
    match ← execute n with
    | some o => return some o
    | none => executeAll execute ns

/-- Repeats the body while the condition holds and the body gives nothing back, with fuel for so
many tests of the condition. -/
def repeatWhile (condition : Run Bool) (body : Run (Option Object)) : Nat → Run (Option Object)
  | 0 => throw .outOfFuel
  | fuel + 1 => do
    if ← condition then
      match ← body with
      | some o => return some o
      | none => repeatWhile condition body fuel
    else return none

end LetDef.Execution
