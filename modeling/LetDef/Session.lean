import LetDef.Pipeline

/-!
# Sessions

A session keeps one analyser, one interpreter and one current program over many requests. Analyser
and interpreter share the names of the host, and the decorations of a program stay with it.
-/

namespace LetDef

/-- What a session keeps between requests. -/
structure Session where
  /-- The names of the host. -/
  host : Option Scope
  /-- The global scope of the analyser. -/
  statics : Scope
  /-- The global scope of the interpreter. -/
  globals : Scope
  store : Store
  program : Option Program := none
  decorations : Analysis.Decorations := {}
  output : String := ""

namespace Session

/-- Why a request fails. -/
inductive Trouble where
  | failure (f : Failure)
  | naming (e : NameError)
  | noProgram
deriving DecidableEq, Repr

/-- A step of a session. Its changes last also when it fails. -/
abbrev Request := ExceptT Trouble (StateM Session)

/-- A new session over the names of a host. -/
def start (host : Option Scope) (store : Store) : Session :=
  let (statics, store) := Analysis.globalScope host store
  let (globals, store) := Execution.globalScope host store
  { host := host, statics := statics, globals := globals, store := store }

/-- Makes a text the current program. -/
def parse (file source : String) : Request Program := do
  match Program.ofText file source with
  | .error e => throw (.failure e)
  | .ok p =>
    modify fun s => { s with program := some p, decorations := {} }
    return p

/-- The current program. -/
def current : Request Program := do
  match (← get).program with
  | some p => pure p
  | none => throw .noProgram

/-- Analyses the current program, and gives the symbols of the analyser's global scope. -/
def analyze : Request Frame := do
  let p ← current
  let s ← get
  let initial : Analysis.State := ⟨s.store, s.decorations⟩
  let (result, final) :=
    ((Analysis.analyze Analysis.maxDepth s.statics p).run initial).run
  set { s with store := final.store, decorations := final.decorations }
  match result with
  | .ok _ => return final.store.frame s.statics.frame
  | .error h => throw (.failure (.analysis h))

/-- Replaces the analyser by a new one. -/
def refresh : Request Unit :=
  modify fun s =>
    let (statics, store) := Analysis.globalScope s.host s.store
    { s with statics := statics, store := store }

/-- Does a step of a run, printing to the output of the session. -/
def perform {α : Type} (step : Execution.Run α) : Request α := do
  let s ← get
  let (result, world) := (step.run { store := s.store, output := s.output }).run
  set { s with store := world.store, output := world.output }
  match result with
  | .ok a => return a
  | .error h => throw (.failure (.execution h))

/-- Runs the current program. -/
def run (N : Execution.Natives) : Request Object := do
  let p ← current
  perform (Execution.run N ampleFuel Execution.maxDepth (← get).globals p)

/-- Calls the function of a name and arity. -/
def call (N : Execution.Natives) (name : String) (arity : Nat) (arguments : List Object) :
    Request Object := do
  match (← get).store.lookupFunction (← get).globals name arity with
  | .error e => throw (.naming e)
  | .ok (_, g) => perform (Execution.invoke N ampleFuel g arguments Execution.maxCallDepth)

/-- The global variable of a name. -/
def getVariable (name : String) : Request Variable := do
  match (← get).store.lookupVariable (← get).globals name with
  | .error e => throw (.naming e)
  | .ok (_, v) => return v

/-- The symbols of the interpreter's global scope. -/
def symbols : Request Frame := do
  return (← get).store.frame (← get).globals.frame

/-- What was printed since it was last taken. -/
def takeOutput (s : Session) : String × Session :=
  (s.output, { s with output := "" })

end Session

end LetDef
