import Std.Data.TreeMap
import LetDef.Analysis.Fault
import LetDef.Store.Basic

/-!
# Decorations

Analysis decorates a tree: it says which variable or function a name stands for and which type an
expression has. Decorations are kept beside the tree by the numbers of its nodes, and each node is
decorated once. What was decorated before a fault stays decorated.
-/

namespace LetDef.Analysis

/-- What a node stands for. -/
inductive Decoration where
  | variable (ref : VariableRef)
  | function (ref : FunctionRef)
  | type (t : Ty)
deriving DecidableEq, Repr

/-- The decorations of a tree by the numbers of its nodes. -/
structure Decorations where
  slots : Std.TreeMap Nat Decoration := {}

/-- The decoration of a node. -/
def Decorations.get? (d : Decorations) (m : Mark) : Option Decoration :=
  d.slots[m.number]?

/-- What analysis reads and changes. -/
structure State where
  store : Store := {}
  decorations : Decorations := {}

/-- A step of analysis. Its changes last also when it stops. -/
abbrev Analyze := ExceptT Halt (StateM State)

/-- Stops with a fault. -/
def fail {α : Type} (site : Site) (cause : Cause) : Analyze α :=
  throw (.fault ⟨cause, site⟩)

/-- Stops because the tree is nested too deeply. -/
def tooDeep {α : Type} : Analyze α :=
  throw .tooDeep

/-- Gives a node its decoration. -/
def decorate (m : Mark) (kind : Node.Kind) (decoration : Decoration) : Analyze Unit := do
  let state ← get
  match state.decorations.get? m with
  | some _ => throw (.decorated kind)
  | none =>
    set { state with
      decorations := ⟨state.decorations.slots.insert m.number decoration⟩ }

/-- The outcome of resolving a name. -/
def unwrap {α : Type} (result : Except NameError α) : Analyze α :=
  match result with
  | .ok a => pure a
  | .error e => throw (.naming e)

/-- Does a step in which a name that is not resolved is a fault at the site. -/
def resolving {α : Type} (site : Site) (step : Analyze α) : Analyze α :=
  tryCatch step fun
    | .naming e => fail site (.naming e)
    | halt => throw halt

/-- What a look-up in the store finds. -/
def consult {α : Type} (find : Store → Except NameError α) : Analyze α := do
  unwrap (find (← get).store)

/-- The outcome of resolving a name, where a failure is a fault at the site. -/
def resolve {α : Type} (site : Site) (result : Except NameError α) : Analyze α :=
  resolving site (unwrap result)

/-- What a look-up in the store finds, where a failure is a fault at the site. -/
def lookup {α : Type} (site : Site) (find : Store → Except NameError α) : Analyze α :=
  resolving site (consult find)

/-- Changes the store. -/
def modifyStore (f : Store → Store) : Analyze Unit :=
  modify fun state => { state with store := f state.store }

/-- Adds a variable to a scope that has none of its name. -/
def newVariable (scope : Scope) (v : Variable) : Analyze Unit := do
  match (← get).store.variableConflict? scope v.name with
  | some e => throw (.naming e)
  | none => modifyStore (·.addVariable scope v)

/-- Defines a variable in a scope, where a failure is a fault at the site. -/
def addVariable (site : Site) (scope : Scope) (v : Variable) : Analyze Unit :=
  resolving site (newVariable scope v)

/-- Adds a function to a scope that has none of its name and arity. -/
def newFunction (scope : Scope) (g : Function) : Analyze Unit := do
  match (← get).store.functionConflict? scope g.name g.arity with
  | some e => throw (.naming e)
  | none => modifyStore (·.addFunction scope g)

/-- Defines a function in a scope, where a failure is a fault at the site. -/
def addFunction (site : Site) (scope : Scope) (g : Function) : Analyze Unit :=
  resolving site (newFunction scope g)

/-- A new scope inside the given one. -/
def enter (parent : Scope) : Analyze Scope :=
  modifyGet fun state =>
    let (scope, store) := state.store.enter (some parent)
    (scope, { state with store := store })

/-- Refuses a value of the type `source` where `target` is declared, unless it may stand there. -/
def require (site : Site) (target source : Ty) : Analyze Unit :=
  if target.accepts source then pure () else fail site (.typeMismatch target source)

end LetDef.Analysis
