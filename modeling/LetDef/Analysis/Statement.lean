import LetDef.Analysis.Expression

/-!
# Analysing statements

The scope and the return type of the enclosing method are handed down. A block has a scope of its
own, and so have the clauses of a FOR loop.
-/

namespace LetDef.Analysis

/-- The type of a variable: as declared, or else that of its first value, which has to fit. -/
def declaredType (site : Site) (name : String) (typeName : Option String)
    (value : Option (Site × Ty)) : Analyze Ty := do
  let declared ← match typeName, value with
    | some typeName, _ => resolve site (Ty.ofName typeName)
    | none, some (_, t) => pure t
    | none, none => fail site (.undeterminedType name)
  match value with
  | some (valueSite, t) => require valueSite declared t
  | none => pure ()
  return declared

/-- Defines a variable without a value. -/
def defineVariable (site : Site) (scope : Scope) (name : String) (t : Ty) (constant : Bool) :
    Analyze Unit :=
  addVariable site scope ⟨name, name, t, constant, .unset⟩

/-- The type of a value that may be omitted, with its site. -/
def optionalValue (scope : Scope) (value : Node) (depth : Nat) : Analyze (Option (Site × Ty)) := do
  if value.isPresent then return some (value.site, ← expression scope value depth)
  return none

/-- Checks that an expression is a condition. -/
def condition (scope : Scope) (n : Node) : Nat → Analyze Unit
  | 0 => tooDeep
  | depth + 1 => do
    let t ← expression scope n depth
    if t = .boolean then pure () else fail n.site (.typeMismatch .boolean t)

/-- Analyses an expression that stands for its effect. -/
def perform (scope : Scope) (mark : Mark) (n : Node) : Nat → Analyze Unit
  | 0 => tooDeep
  | depth + 1 => do
    let _ ← expression scope n depth
    match n with
    | .call .. => pure ()
    | _ => fail ⟨some .perform, mark.position⟩ .notACall

/-- Analyses the declaration of a local variable. -/
def declare (scope : Scope) (mark : Mark) (name : String) (typeName : Option String)
    (value : Node) : Nat → Analyze Unit
  | 0 => tooDeep
  | depth + 1 => do
    let site : Site := ⟨some .declare, mark.position⟩
    let valueType ← optionalValue scope value depth
    let t ← declaredType site name typeName valueType
    defineVariable site scope name t false
    decorate mark .declare (.variable ⟨scope.frame, name⟩)

/-- The variable that an analysed access stands for. -/
def accessed? (n : Node) : Analyze (Option Variable) := do
  let state ← get
  match n with
  | .access mark .. =>
    match state.decorations.get? mark with
    | some (.variable ref) => return state.store.getVariable? ref
    | _ => return none
  | _ => return none

/-- Analyses an assignment. -/
def assign (scope : Scope) (mark : Mark) (receiver value : Node) : Nat → Analyze Unit
  | 0 => tooDeep
  | depth + 1 => do
    let site : Site := ⟨some .assign, mark.position⟩
    let _ ← expression scope receiver depth
    let t ← expression scope value depth
    match ← accessed? receiver with
    | none => fail site .invalidTarget
    | some v =>
      if v.constant then fail site (.constantAssignment v.name)
      require site v.type t

/-- Refuses an empty body. -/
def requireBody (site : Site) (construct : String) (body : List Node) : Analyze Unit :=
  if body.isEmpty then fail site (.emptyBody construct) else pure ()

mutual

/-- Analyses the statements of a block. -/
def block (scope : Scope) (returns : Ty) (body : List Node) : Nat → Analyze Unit
  | 0 => tooDeep
  | depth + 1 => body.forM fun n => statement scope returns n depth

/-- Analyses a statement. -/
def statement (scope : Scope) (returns : Ty) (n : Node) : Nat → Analyze Unit
  | 0 => tooDeep
  | depth + 1 =>
    match n with
    | .perform mark e => perform scope mark e depth
    | .declare mark name typeName value => declare scope mark name typeName value depth
    | .assign mark receiver value => assign scope mark receiver value depth
    | .branch mark c thenBody elseBody => branch scope returns mark c thenBody elseBody depth
    | .forLoop mark first c last body => forLoop scope returns mark first c last body depth
    | .whileLoop mark c body => whileLoop scope returns mark c body depth
    | .giveBack _ value => do
      let t ← expression scope value depth
      require n.site returns t
    | _ => fail n.site (.unsupportedStatement n.kindName)

/-- Analyses an IF statement. -/
def branch (scope : Scope) (returns : Ty) (mark : Mark) (c : Node)
    (thenBody elseBody : List Node) : Nat → Analyze Unit
  | 0 => tooDeep
  | depth + 1 => do
    condition scope c depth
    requireBody ⟨some .branch, mark.position⟩ "IF" thenBody
    block (← enter scope) returns thenBody depth
    if !elseBody.isEmpty then block (← enter scope) returns elseBody depth

/-- Analyses a FOR loop. -/
def forLoop (scope : Scope) (returns : Ty) (mark : Mark) (first c last : Node)
    (body : List Node) : Nat → Analyze Unit
  | 0 => tooDeep
  | depth + 1 => do
    let site : Site := ⟨some .forLoop, mark.position⟩
    let loop ← enter scope
    if first.isPresent then statement loop returns first depth
    if !c.isPresent then fail site .missingCondition
    condition loop c depth
    if last.isPresent then statement loop returns last depth
    requireBody site "FOR" body
    block (← enter loop) returns body depth

/-- Analyses a WHILE loop. -/
def whileLoop (scope : Scope) (returns : Ty) (mark : Mark) (c : Node) (body : List Node) :
    Nat → Analyze Unit
  | 0 => tooDeep
  | depth + 1 => do
    condition scope c depth
    requireBody ⟨some .whileLoop, mark.position⟩ "WHILE" body
    block (← enter scope) returns body depth

end

end LetDef.Analysis
