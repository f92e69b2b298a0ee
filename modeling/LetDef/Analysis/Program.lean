import LetDef.Analysis.Statement

/-!
# Analysing programs

Fields come first, in order, then methods. A method is defined before its body is analysed, so it
may call itself and those before it. Last, there has to be a `main` without parameters that
returns an integer.
-/

namespace LetDef.Analysis

/-- Analyses a field. -/
def field (globals : Scope) (f : Field) : Nat → Analyze Unit
  | 0 => tooDeep
  | depth + 1 => do
    let valueType ← optionalValue globals f.value depth
    if f.constant && !f.value.isPresent then fail f.site (.constantWithoutValue f.name)
    let t ← declaredType f.site f.name f.typeName valueType
    defineVariable f.site globals f.name t f.constant
    decorate f.mark .field (.variable ⟨globals.frame, f.name⟩)

/-- The type that a method returns: as declared, or else nil. -/
def returnType (m : Method) : Analyze Ty :=
  match m.returnType with
  | some name => resolve m.site (Ty.ofName name)
  | none => pure .nil

/-- Defines the parameters of a method in the scope of its body. -/
def defineParameters (site : Site) (scope : Scope) : List (String × Ty) → Analyze Unit
  | [] => pure ()
  | (name, t) :: rest => do
    defineVariable site scope name t false
    defineParameters site scope rest

/-- Analyses a method. -/
def method (globals : Scope) (m : Method) : Nat → Analyze Unit
  | 0 => tooDeep
  | depth + 1 => do
    let parameters ← m.parameterTypes.mapM fun name => resolve m.site (Ty.ofName name)
    let returns ← returnType m
    addFunction m.site globals ⟨m.name, m.name, parameters, returns, .native .nothing⟩
    decorate m.mark .method (.function ⟨globals.frame, m.name, parameters.length⟩)
    let scope ← enter globals
    defineParameters m.site scope (m.parameters.zip parameters)
    m.body.forM fun n => statement scope returns n depth

/-- The function that a run would begin with. -/
def findMain (globals : Scope) (site : Site) : Analyze Function :=
  tryCatch
    (do
      let (_, main) ← consult fun store => store.lookupFunction globals "main" 0
      return main)
    fun
    | .naming _ => fail site .missingMain
    | halt => throw halt

/-- Checks that there is a `main` as required. -/
def requireMain (globals : Scope) (site : Site) : Analyze Unit := do
  let main ← findMain globals site
  if main.returns = .integer then pure () else fail site (.mainReturns main.returns)

/-- Analyses a program whose nodes are numbered. -/
def program (depth : Nat) (globals : Scope) (p : Program) : Analyze Unit := do
  p.fields.forM fun f => field globals f depth
  p.methods.forM fun m => method globals m depth
  requireMain globals p.site

/-- Analyses what stands among the fields of a tree. What is no field may have a value, which is
analysed before analysis stops. -/
def fieldMember (globals : Scope) (n : Node) (depth : Nat) : Analyze Unit :=
  match Field.ofNode? n, depth with
  | some f, _ => field globals f depth
  | none, 0 => tooDeep
  | none, depth + 1 => do
    let _ ← optionalValue globals n.ownValue depth
    throw .misfit

/-- Analyses what stands among the methods of a tree. -/
def methodMember (globals : Scope) (n : Node) (depth : Nat) : Analyze Unit :=
  match Method.ofNode? n, depth with
  | some m, _ => method globals m depth
  | none, 0 => tooDeep
  | none, _ + 1 => throw .misfit

/-- Analyses a tree that may be no program and whose nodes are numbered. -/
def tree (depth : Nat) (globals : Scope) : Node → Analyze Unit
  | .program mark fields methods => do
    fields.forM fun n => fieldMember globals n depth
    methods.forM fun n => methodMember globals n depth
    requireMain globals ⟨some .program, mark.position⟩
  | _ => throw .misfit

/-- The function `print`, as analysis knows it. -/
def printFunction : Function :=
  ⟨"print", "System.out.println", [.any], .nil, .native .nothing⟩

/-- A scope for the names of a program, inside the given one. It knows `print`. -/
def globalScope (parent : Option Scope) (store : Store) : Scope × Store :=
  let (scope, store) := store.enter parent
  (scope, store.addFunction scope printFunction)

/-- How deeply the rules of analysis may be nested. -/
def maxDepth : Nat := 19989

/-- Does a step in which nesting that is too deep is a fault at the site. -/
def guarding (site : Site) (step : Analyze Unit) : Analyze Unit :=
  tryCatch step fun
    | .tooDeep => fail site .tooDeep
    | halt => throw halt

/-- Analyses a program in a global scope. Nesting deeper than `depth` is a fault of the program. -/
def analyze (depth : Nat) (globals : Scope) (p : Program) : Analyze Unit :=
  guarding p.site (program depth globals p.numbered)

/-- A fault tells the position of its node. Objects that are no nodes have none, so that a fault at
one of these strays is a misfit. -/
def Halt.located (strays : Site → Bool) : Halt → Halt
  | .fault f => if strays f.site then .misfit else .fault f
  | halt => halt

/-- Does a step in which faults can be made at nodes only. -/
def locating (strays : Site → Bool) (step : Analyze Unit) : Analyze Unit :=
  tryCatch step fun halt => throw (halt.located strays)

/-- Analyses a tree in a global scope as if it were a program. There may be objects in the tree that
are no nodes: each is stood for by a node that is neither an expression nor a statement, at a site
of its own, and `strays` are these sites. -/
def analyzeTree (strays : Site → Bool) (depth : Nat) (globals : Scope) (n : Node) : Analyze Unit :=
  locating strays (guarding n.site (tree depth globals n.numbered))

end LetDef.Analysis
