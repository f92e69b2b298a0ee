import LetDef.Execution.Evaluation

/-!
# Running programs

A run binds the fields in order, defines the methods and then invokes `main`.
-/

namespace LetDef.Execution

/-- Binds a field to its first value. -/
def bindField (N : Natives) (fuel : Nat) (globals : Scope) (f : Field) : Nat → Run Unit
  | 0 => tooDeep
  | depth + 1 => do
    let o ← if f.value.isPresent then evaluate N fuel globals f.value depth else pure .unset
    addVariable f.site (.declaration f.mark) globals ⟨f.name, f.name, .any, f.constant, o⟩

/-- The function that a method is in the scope of its definition. -/
def methodFunction (globals : Scope) (m : Method) : Function :=
  ⟨m.name, m.name, m.parameters.map fun _ => .any, .any, .method m globals⟩

/-- The function that a run begins with. -/
def findMain (globals : Scope) (site : Site) : Run Function :=
  tryCatch
    (do
      let (_, main) ← consult fun store => store.lookupFunction globals "main" 0
      return main)
    fun
    | .naming _ => fail site .missingMain
    | halt => throw halt

/-- Runs a program, with depth and fuel as given. -/
def program (N : Natives) (fuel depth : Nat) (globals : Scope) (p : Program) : Run Object := do
  p.fields.forM fun f => bindField N fuel globals f depth
  p.methods.forM fun m => addFunction m.site globals (methodFunction globals m)
  invoke N fuel (← findMain globals p.site) [] depth

/-- Binds what stands among the fields of a tree. What is no field may have a value, which is
evaluated before the run stops. -/
def bindMember (N : Natives) (fuel : Nat) (globals : Scope) (n : Node) (depth : Nat) : Run Unit :=
  match Field.ofNode? n, depth with
  | some f, _ => bindField N fuel globals f depth
  | none, 0 => tooDeep
  | none, depth + 1 => do
    if n.ownValue.isPresent then
      let _ ← evaluate N fuel globals n.ownValue depth
    throw .misfit

/-- Defines what stands among the methods of a tree. -/
def defineMember (globals : Scope) (n : Node) : Run Unit :=
  match Method.ofNode? n with
  | some m => addFunction m.site globals (methodFunction globals m)
  | none => throw .misfit

/-- Runs a tree that may be no program, with depth and fuel as given. -/
def tree (N : Natives) (fuel depth : Nat) (globals : Scope) : Node → Run Object
  | .program mark fields methods => do
    fields.forM fun n => bindMember N fuel globals n depth
    methods.forM (defineMember globals)
    invoke N fuel (← findMain globals ⟨some .program, mark.position⟩) [] depth
  | _ => throw .misfit

/-- The function `print`. -/
def printFunction : Function :=
  ⟨"print", "System.out.println", [.any], .any, .native .print⟩

/-- A scope for the names of a program, inside the given one. It knows `print`. -/
def globalScope (parent : Option Scope) (store : Store) : Scope × Store :=
  let (scope, store) := store.enter parent
  (scope, store.addFunction scope printFunction)

/-- How deeply the rules of a run may be nested. -/
def maxDepth : Nat := 19989

/-- How deeply the rules of a single call from outside a run may be nested. -/
def maxCallDepth : Nat := 988

/-- Does a step in which nesting that is too deep is a fault at the site. -/
def guarding (site : Site) (step : Run Object) : Run Object :=
  tryCatch step fun
    | .tooDeep => fail site .callDepth
    | halt => throw halt

/-- Runs a program in a global scope. Nesting deeper than `depth` is a fault of the program. -/
def run (N : Natives) (fuel depth : Nat) (globals : Scope) (p : Program) : Run Object :=
  guarding p.site (program N fuel depth globals p)

/-- A fault tells the position of its node. Objects that are no nodes have none, so that a fault at
one of these strays is a misfit. -/
def Halt.located (strays : Site → Bool) : Halt → Halt
  | .fault f => if strays f.site then .misfit else .fault f
  | halt => halt

/-- Does a step in which faults can be made at nodes only. -/
def locating (strays : Site → Bool) (step : Run Object) : Run Object :=
  tryCatch step fun halt => throw (halt.located strays)

/-- Runs a tree in a global scope as if it were a program. There may be objects in the tree that are
no nodes: each is stood for by a node that is neither an expression nor a statement, at a site of
its own, and `strays` are these sites. -/
def runTree (N : Natives) (strays : Site → Bool) (fuel depth : Nat) (globals : Scope) (n : Node) :
    Run Object :=
  locating strays (guarding n.site (tree N fuel depth globals n))

end LetDef.Execution
