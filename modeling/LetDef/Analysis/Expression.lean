import LetDef.Analysis.Basic

/-!
# Analysing expressions

`expression` finds the type of an expression and decorates it. `depth` bounds the nesting: every
rule takes one unit.
-/

namespace LetDef.Analysis

/-! ### Literals and operators -/

/-- The type of a sort of literal. -/
def literalType? : String → Option Ty
  | "nil" => some .nil
  | "boolean" => some .boolean
  | "character" => some .character
  | "string" => some .string
  | "integer" => some .integer
  | "decimal" => some .decimal
  | _ => none

/-- The logical operators. -/
def isLogical (operator : String) : Bool :=
  ["&&", "||"].contains operator

/-- The operators that compare. -/
def isComparison (operator : String) : Bool :=
  ["<", "<=", ">", ">=", "==", "!="].contains operator

/-- The operators on numbers, the sum excepted. -/
def isArithmetic (operator : String) : Bool :=
  ["-", "*", "/"].contains operator

/-- The type of a sum: a text if either operand is one, else that of two like numbers. -/
def sumType? (left right : Ty) : Option Ty :=
  if left = .string || right = .string then some .string
  else if left = right && left.isNumeric then some left
  else none

/-- The type of a binary operation. -/
def operationType (operator : String) (left right : Ty) : Except Cause Ty :=
  if isLogical operator then
    if left = .boolean && right = .boolean then .ok .boolean
    else .error (.invalidOperands operator left right)
  else if isComparison operator then
    if left = right && Ty.comparable.accepts left then .ok .boolean
    else .error (.invalidOperands operator left right)
  else if operator = "+" then
    match sumType? left right with
    | some t => .ok t
    | none => .error (.invalidOperands operator left right)
  else if isArithmetic operator then
    if left = right && left.isNumeric then .ok left
    else .error (.invalidOperands operator left right)
  else .error (.unknownOperator operator)

/-! ### Expressions -/

/-- Checks arguments, given with their types, against the types of parameters. -/
def requireArguments : List Ty → List (Node × Ty) → Analyze Unit
  | parameter :: parameters, (argument, t) :: rest => do
    require argument.site parameter t
    requireArguments parameters rest
  | _, _ => pure ()

/-- Checks the receiver of a method against its first parameter. -/
def requireReceiver (receiver : Node) (t : Ty) : List Ty → Analyze Unit
  | parameter :: _ => require receiver.site parameter t
  | [] => throw .missingParameter

mutual

/-- Finds the type of an expression. -/
def expression (scope : Scope) (n : Node) : Nat → Analyze Ty
  | 0 => tooDeep
  | depth + 1 =>
    match n with
    | .literal mark _ sort =>
      match literalType? sort with
      | none => fail n.site (.unknownLiteral sort)
      | some t => do
        decorate mark .literal (.type t)
        return t
    | .group mark body => do
      let t ← expression scope body depth
      decorate mark .group (.type t)
      return t
    | .binary mark operator left right => operation scope mark operator left right depth
    | .access mark receiver name => access scope mark receiver name depth
    | .call mark receiver name arguments => call scope mark receiver name arguments depth
    | _ => fail n.site (.unsupportedExpression n.kindName)

/-- Finds the type of a binary operation. -/
def operation (scope : Scope) (mark : Mark) (operator : String) (left right : Node) :
    Nat → Analyze Ty
  | 0 => tooDeep
  | depth + 1 => do
    let l ← expression scope left depth
    let r ← expression scope right depth
    match operationType operator l r with
    | .error cause => fail ⟨some .binary, mark.position⟩ cause
    | .ok t =>
      decorate mark .binary (.type t)
      return t

/-- Finds the type of a variable, or of a field of a receiver. -/
def access (scope : Scope) (mark : Mark) (receiver : Node) (name : String) : Nat → Analyze Ty
  | 0 => tooDeep
  | depth + 1 => do
    let site : Site := ⟨some .access, mark.position⟩
    let (ref, v) ← resolving site <| match receiver with
      | .absent => consult fun store => store.lookupVariable scope name
      | _ => do
        let t ← expression scope receiver depth
        consult fun store => store.lookupField t.members? name
    decorate mark .access (.variable ref)
    return v.type

/-- Finds the type of a call of a function, or of a method of a receiver. The arguments come
first. -/
def call (scope : Scope) (mark : Mark) (receiver : Node) (name : String) (arguments : List Node) :
    Nat → Analyze Ty
  | 0 => tooDeep
  | depth + 1 => do
    let site : Site := ⟨some .call, mark.position⟩
    let types ← arguments.mapM fun argument => expression scope argument depth
    match receiver with
    | .absent =>
      let (ref, g) ← lookup site fun store =>
        store.lookupFunction scope name arguments.length
      decorate mark .call (.function ref)
      requireArguments g.parameters (arguments.zip types)
      return g.returns
    | _ =>
      let t ← expression scope receiver depth
      let (ref, g) ← lookup site fun store =>
        store.lookupMethod t.members? name (arguments.length + 1)
      decorate mark .call (.function ref)
      requireReceiver receiver t g.parameters
      requireArguments (g.parameters.drop 1) (arguments.zip types)
      return g.returns

end

end LetDef.Analysis
