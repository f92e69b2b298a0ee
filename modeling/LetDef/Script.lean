import LetDef.Execution.Program

/-!
# Scripts on scopes

A script works on scopes and objects that are numbered in the order of their creation. It goes on
after a step that fails.
-/

namespace LetDef.Script

open Execution (Natives)

/-- What a script works on. -/
structure Desk where
  store : Store := {}
  scopes : Array Scope := #[]
  objects : Array Object := #[]

/-- A step of a script. Scopes and objects are given by number, types by name. -/
inductive Step where
  | enter (parent : Option Nat)
  | defineVariable (scope : Nat) (name jvmName typeName : String) (constant : Bool) (value : Datum)
  | defineFunction (scope : Nat) (name jvmName : String) (parameters : List String)
      (returns : String) (key : String)
  | getVariable (scope : Nat) (name : String)
  | getFunction (scope : Nat) (name : String) (arity : Nat)
  | setVariable (scope : Nat) (name : String) (value : Datum)
  | call (scope : Nat) (name : String) (arguments : List Datum)
  | similarVariables (scope : Nat) (name : String) (limit : Int)
  | similarFunctions (scope : Nat) (name : String) (limit : Int)
  | describe (scope : Nat)
  | dump (scope : Nat)
  | makeObject (scope : Nat) (value : Datum)
  | getField (object : Nat) (name : String)
  | callMethod (object : Nat) (name : String) (arguments : List Datum)

/-- What a step answers. -/
inductive Answer where
  | scope (number : Nat)
  | text (s : String)
  | variable (v : Variable)
  | function (g : Function)
  | value (v : Value)
  | names (names : List String)
  | symbols (f : Frame)

/-- Why a step fails. -/
inductive Trouble where
  | naming (e : NameError)
  | notAValue
  | noSuchNumber
  | notNative
  | halt (h : Execution.Halt)
deriving DecidableEq, Repr

/-- A part of a step. Its changes last also when it fails. -/
abbrev Work := ExceptT Trouble (StateM Desk)

/-- The outcome of resolving a name. -/
def resolve {α : Type} (result : Except NameError α) : Work α :=
  match result with
  | .ok a => pure a
  | .error e => throw (.naming e)

/-- The item of a number. -/
def numbered {α : Type} (items : Array α) (i : Nat) : Work α :=
  match items[i]? with
  | some a => pure a
  | none => throw .noSuchNumber

/-- The scope of a number. -/
def scopeAt (i : Nat) : Work Scope := do numbered (← get).scopes i

/-- The object of a number. -/
def objectAt (i : Nat) : Work Object := do numbered (← get).objects i

/-- The value that a datum is. -/
def valueOf (d : Datum) : Work Value :=
  match d.value? with
  | some v => pure v
  | none => throw .notAValue

/-- The objects that data are. -/
def objectsOf (ds : List Datum) : Work (List Object) :=
  ds.mapM fun d => do return Object.of (← valueOf d)

/-! ### Working on scopes -/

/-- Makes a scope inside the given one, and gives its number. -/
def enter (parent : Option Scope) : Work Nat := do
  let desk ← get
  let (scope, store) := desk.store.enter parent
  set { desk with store := store, scopes := desk.scopes.push scope }
  return desk.scopes.size

/-- Defines a variable in a scope. -/
def defineVariable (scope : Scope) (v : Variable) : Work Unit := do
  let desk ← get
  set { desk with store := ← resolve (desk.store.defineVariable scope v) }

/-- Defines a function in a scope. -/
def defineFunction (scope : Scope) (g : Function) : Work Unit := do
  let desk ← get
  set { desk with store := ← resolve (desk.store.defineFunction scope g) }

/-- The nearest variable of a name, with its address. -/
def lookupVariable (scope : Scope) (name : String) : Work (VariableRef × Variable) := do
  resolve ((← get).store.lookupVariable scope name)

/-- Puts an object into the nearest variable of a name. -/
def assign (scope : Scope) (name : String) (o : Object) : Work Variable := do
  let (ref, v) ← lookupVariable scope name
  modify fun desk => { desk with store := desk.store.setVariable ref o }
  return { v with value := o }

/-- Calls a function that is a native. -/
def callNative (N : Natives) (g : Function) (arguments : List Object) : Work Value := do
  match g.body with
  | .method .. => throw .notNative
  | .native n =>
    let desk ← get
    let step := Execution.callNative N n arguments Execution.maxCallDepth
    let (result, world) := (step.run { store := desk.store }).run
    set { desk with store := world.store }
    match result with
    | .ok o => return o.value
    | .error h => throw (.halt h)

/-- Calls the nearest function of a name that takes the arguments. -/
def call (N : Natives) (scope : Scope) (name : String) (arguments : List Object) : Work Value := do
  let (_, g) ← resolve ((← get).store.lookupFunction scope name arguments.length)
  callNative N g arguments

/-- Does a step. -/
def Step.work (N : Natives) : Step → Work Answer
  | .enter parent => do return .scope (← Script.enter (← parent.mapM scopeAt))
  | .defineVariable i name jvmName typeName constant value => do
    let scope ← scopeAt i
    let t ← resolve (Ty.ofName typeName)
    let v : Variable := ⟨name, jvmName, t, constant, .of (← valueOf value)⟩
    Script.defineVariable scope v
    return .text v.text
  | .defineFunction i name jvmName parameters returns key => do
    let scope ← scopeAt i
    let parameters ← parameters.mapM fun name => resolve (Ty.ofName name)
    let returns ← resolve (Ty.ofName returns)
    let g : Function := ⟨name, jvmName, parameters, returns, .native (.host key)⟩
    Script.defineFunction scope g
    return .text g.text
  | .getVariable i name => do
    let (_, v) ← lookupVariable (← scopeAt i) name
    return .variable v
  | .getFunction i name arity => do
    let (_, g) ← resolve ((← get).store.lookupFunction (← scopeAt i) name arity)
    return .function g
  | .setVariable i name value => do
    -- A name that is not found comes before a datum that is no value.
    let scope ← scopeAt i
    let _ ← lookupVariable scope name
    return .variable (← assign scope name (.of (← valueOf value)))
  | .call i name arguments => do
    let objects ← objectsOf arguments
    return .value (← Script.call N (← scopeAt i) name objects)
  | .similarVariables i name limit => do
    return .names (Store.similar limit name ((← get).store.variableNames (← scopeAt i)))
  | .similarFunctions i name limit => do
    return .names (Store.similar limit name ((← get).store.functionNames (← scopeAt i)))
  | .describe i => do return .text ((← get).store.scopeText (← scopeAt i))
  | .dump i => do return .symbols ((← get).store.frame (← scopeAt i).frame)
  | .makeObject i value => do
    let o : Object := ⟨← valueOf value, some (← scopeAt i)⟩
    modify fun desk => { desk with objects := desk.objects.push o }
    return .text o.text
  | .getField i name => do
    let (_, v) ← resolve ((← get).store.lookupField (← objectAt i).members name)
    return .variable v
  | .callMethod i name arguments => do
    let objects ← objectsOf arguments
    let o ← objectAt i
    let (_, g) ← resolve ((← get).store.lookupMethod o.members name (objects.length + 1))
    return .value (← callNative N g (o :: objects))

/-- Does a step on a desk. -/
def Step.run (N : Natives) (step : Step) (desk : Desk) : Except Trouble Answer × Desk :=
  ((step.work N).run desk).run

/-- Does the steps of a script one after the other. -/
def run (N : Natives) : List Step → Desk → List (Except Trouble Answer)
  | [], _ => []
  | step :: steps, desk =>
    let (answer, desk) := step.run N desk
    answer :: run N steps desk

end LetDef.Script
