import LetDef.Execution.Basic

/-!
# Evaluation

Expressions yield objects and statements may give one back. `depth` bounds the nesting: every rule
takes one unit and an invocation two. `fuel` bounds the tests of each loop's condition. What the
functions of the host do is a parameter of all rules.
-/

namespace LetDef.Execution

/-- Defines the parameters of a method from a position on in the scope of a call. -/
def bindParameters (m : Method) (scope : Scope) : Nat → List (String × Object) → Run Unit
  | _, [] => pure ()
  | position, (name, o) :: rest => do
    addVariable m.site (.parameter m.mark position) scope ⟨name, name, .any, false, o⟩
    bindParameters m scope (position + 1) rest

/-- The outcome of a binary operation at a site. A decimal has to be in the range of exponents. -/
def operateAt (site : Site) (operator : String) (left right : Object) : Run Object :=
  match operate operator left.value right.value with
  | .ok v =>
    match v.confine? with
    | some v => pure (.of v)
    | none => throw (.overflow operator)
  | .error (.cause c) => fail site c
  | .error .tooManyDigits => throw .tooManyDigits

/-- Puts an object into the variable that an access stands for in a scope, unless that is a constant
which has been set. -/
def store (site : Site) (scope : Scope) (access : Node) (ref : VariableRef) (v : Variable)
    (o : Object) : Run Unit :=
  if v.constant && v.value != .unset then fail site (.constantAssignment v.name)
  else modifyStore (.assigned scope access ref) (·.setVariable ref o)

mutual

/-- Evaluates an expression. -/
def evaluate (N : Natives) (fuel : Nat) (scope : Scope) (n : Node) : Nat → Run Object
  | 0 => tooDeep
  | depth + 1 => recording (.evaluated n) <|
    match n with
    | .literal _ value _ =>
      match value.value? with
      | some v => pure (.of v)
      | none => throw .notAValue
    | .group _ body => evaluate N fuel scope body depth
    | .binary mark operator left right => operation N fuel scope mark operator left right depth
    | .access _ receiver name => do
      let (ref, v) ← match receiver with
        | .absent => lookup n.site fun store => store.lookupVariable scope name
        | _ => do
          let o ← evaluate N fuel scope receiver depth
          lookup n.site fun store => store.lookupField o.members name
      note (.read scope n ref)
      return v.value
    | .call mark receiver name arguments => call N fuel scope mark receiver name arguments depth
    | _ => fail n.site (.unsupportedExpression n.kindName)

/-- Evaluates a binary operation. A logical operator leaves out its right operand when the left
one decides. -/
def operation (N : Natives) (fuel : Nat) (scope : Scope) (mark : Mark) (operator : String)
    (left right : Node) : Nat → Run Object
  | 0 => tooDeep
  | depth + 1 => do
    if operator = "&&" then
      if ← condition N fuel scope left depth then
        return .of (.boolean (← condition N fuel scope right depth))
      return .of (.boolean false)
    if operator = "||" then
      if ← condition N fuel scope left depth then return .of (.boolean true)
      return .of (.boolean (← condition N fuel scope right depth))
    let l ← evaluate N fuel scope left depth
    let r ← evaluate N fuel scope right depth
    operateAt ⟨some .binary, mark.position⟩ operator l r

/-- Evaluates a condition. -/
def condition (N : Natives) (fuel : Nat) (scope : Scope) (n : Node) : Nat → Run Bool
  | 0 => tooDeep
  | depth + 1 => do
    match (← evaluate N fuel scope n depth).value with
    | .boolean b => return b
    | v => fail n.site (.notBoolean v)

/-- Evaluates arguments in order. -/
def arguments (N : Natives) (fuel : Nat) (scope : Scope) (ns : List Node) : Nat → Run (List Object)
  | 0 => tooDeep
  | depth + 1 => ns.mapM fun n => evaluate N fuel scope n depth

/-- Evaluates a call. The arguments come before the receiver, which is the first argument of a
method. -/
def call (N : Natives) (fuel : Nat) (scope : Scope) (mark : Mark) (receiver : Node) (name : String)
    (ns : List Node) : Nat → Run Object
  | 0 => tooDeep
  | depth + 1 => do
    let site : Site := ⟨some .call, mark.position⟩
    let objects ← arguments N fuel scope ns depth
    match receiver with
    | .absent =>
      let (_, g) ← lookup site fun store => store.lookupFunction scope name objects.length
      note (.called scope (.call mark .absent name ns) g)
      invoke N fuel g objects depth
    | _ =>
      let o ← evaluate N fuel scope receiver depth
      resolving site do
        let (_, g) ← consult fun store => store.lookupMethod o.members name (objects.length + 1)
        invoke N fuel g (o :: objects) depth

/-- Invokes a function. -/
def invoke (N : Natives) (fuel : Nat) (g : Function) (objects : List Object) : Nat → Run Object
  | depth + 2 =>
    match g.body with
    | .native n => callNative N n objects depth
    | .method m home => recording (.returned m) do
      if objects.length ≠ m.parameters.length then
        fail m.site (.wrongArity m.name m.parameters.length objects.length)
      let scope ← enter home
      bindParameters m scope 0 (m.parameters.zip objects)
      return (← block N fuel scope m.body depth).getD .unset
  | _ => tooDeep

/-- Executes the statements of a block in its scope. -/
def block (N : Natives) (fuel : Nat) (scope : Scope) (body : List Node) : Nat → Run (Option Object)
  | 0 => tooDeep
  | depth + 1 => executeAll (fun n => execute N fuel scope n depth) body

/-- Executes a statement, which may give back an object. -/
def execute (N : Natives) (fuel : Nat) (scope : Scope) (n : Node) : Nat → Run (Option Object)
  | 0 => tooDeep
  | depth + 1 =>
    match n with
    | .perform _ e => do
      let _ ← evaluate N fuel scope e depth
      return none
    | .declare mark name _ value => do
      let o ← if value.isPresent then evaluate N fuel scope value depth else pure .unset
      addVariable n.site (.declaration mark) scope ⟨name, name, .any, false, o⟩
      return none
    | .assign mark receiver value => do
      assign N fuel scope mark receiver value depth
      return none
    | .branch _ c thenBody elseBody => do
      let holds ← condition N fuel scope c depth
      block N fuel (← enter scope) (if holds then thenBody else elseBody) depth
    | .forLoop mark first c last body => forLoop N fuel scope mark first c last body depth
    | .whileLoop _ c body => do
      let loop ← enter scope
      repeatWhile (condition N fuel loop c depth) (do block N fuel (← enter loop) body depth) fuel
    | .giveBack _ value => do return some (← evaluate N fuel scope value depth)
    | _ => fail n.site (.unsupportedStatement n.kindName)

/-- Executes an assignment. The value comes before the receiver. -/
def assign (N : Natives) (fuel : Nat) (scope : Scope) (mark : Mark) (receiver value : Node) :
    Nat → Run Unit
  | 0 => tooDeep
  | depth + 1 => do
    let site : Site := ⟨some .assign, mark.position⟩
    match receiver with
    | .access _ owner name =>
      let o ← evaluate N fuel scope value depth
      let (ref, v) ← resolving receiver.site <| match owner with
        | .absent => consult fun store => store.lookupVariable scope name
        | _ => do
          let object ← evaluate N fuel scope owner depth
          consult fun store => store.lookupField object.members name
      store site scope receiver ref v o
    | _ => fail site .invalidTarget

/-- Executes a FOR loop, whose clauses share a scope around the body's. -/
def forLoop (N : Natives) (fuel : Nat) (scope : Scope) (mark : Mark) (first c last : Node)
    (body : List Node) : Nat → Run (Option Object)
  | 0 => tooDeep
  | depth + 1 => do
    let loop ← enter scope
    if first.isPresent then
      let _ ← execute N fuel loop first depth
    if !c.isPresent then fail ⟨some .forLoop, mark.position⟩ .missingCondition
    let round : Run (Option Object) := do
      match ← block N fuel (← enter loop) body depth with
      | some o => return some o
      | none =>
        if last.isPresent then
          let _ ← execute N fuel loop last depth
        return none
    repeatWhile (condition N fuel loop c depth) round fuel

end

end LetDef.Execution
