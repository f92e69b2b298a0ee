import LetDef.Parser.Expression

/-!
# Parsing statements

As for expressions, `depth` bounds the nesting of the rules and `width` their repetitions.
-/

namespace LetDef.Parser

/-- Reads `LET name [: Type] [= value];` behind the first word. -/
def declaration (width : Nat) (mark : Mark) : Nat → Parse Node
  | 0 => tooDeep
  | depth + 1 => do
    let name ← take .declareName
    let typeName ← nameAfter ":" .typeName
    let value ← partAfter "=" (expression width depth)
    let _ ← take .declareEnd
    return .declare mark name.lexeme typeName value

/-- Reads `RETURN value;` behind the first word. -/
def giveBack (width : Nat) (mark : Mark) : Nat → Parse Node
  | 0 => tooDeep
  | depth + 1 => do
    let value ← expression width depth
    let _ ← take .giveBackEnd
    return .giveBack mark value

/-- Reads an assignment, or an expression that stands for its effect. -/
def simpleStatement (width depth : Nat) : Parse Node := do
  let mark ← here
  let receiver ← expression width depth
  if ← acceptText "=" then
    let value ← expression width depth
    let _ ← take .assignmentEnd
    return .assign mark receiver value
  let _ ← take .performEnd
  return .perform mark receiver

/-- Reads the first clause of a FOR loop and the semicolon behind it. -/
def initializer (width depth : Nat) : Parse Node := do
  let mark ← here
  if ← acceptText "LET" then return ← declaration width mark depth
  if ← acceptText ";" then return .absent
  let receiver ← expression width depth
  let _ ← take .initializerEquals
  let value ← expression width depth
  let _ ← take .initializerEnd
  return .assign mark receiver value

/-- Whether the node may stand before the equals sign of an increment. -/
def isIncrementTarget : Node → Bool
  | .access .. => true
  | .call .. => true
  | _ => false

/-- Reads the last clause of a FOR loop. -/
def increment (width : Nat) : Nat → Parse Node
  | 0 => tooDeep
  | depth + 1 => do
    let mark ← here
    let receiver ← expression width depth
    if !isIncrementTarget receiver then miss .incrementTarget
    let _ ← take .incrementEquals
    return .assign mark receiver (← expression width depth)

/-- Reads statements up to one of the terminators, which stays unread. -/
def statementsUntil (terminators : List String) (statement : Parse Node) : Nat → Parse (List Node)
  | 0 => miss (.blockEnd (terminators.headD ""))
  | width + 1 => do
    match ← get with
    | [] => miss (.blockEnd (terminators.headD ""))
    | t :: _ =>
      if terminators.contains t.lexeme then return []
      let first ← statement
      return first :: (← statementsUntil terminators statement width)

mutual

/-- Reads a block up to one of the terminators, which stays unread. -/
def block (width : Nat) (terminators : List String) : Nat → Parse (List Node)
  | 0 => tooDeep
  | depth + 1 => statementsUntil terminators (statement width depth) (width + 1)

/-- Reads a statement. -/
def statement (width : Nat) : Nat → Parse Node
  | 0 => tooDeep
  | depth + 1 => do
    let mark ← here
    if ← acceptText "LET" then declaration width mark depth
    else if ← acceptText "IF" then branch width mark depth
    else if ← acceptText "FOR" then forLoop width mark depth
    else if ← acceptText "WHILE" then whileLoop width mark depth
    else if ← acceptText "RETURN" then giveBack width mark depth
    else simpleStatement width depth

/-- Reads `IF condition DO statements [ELSE statements] END` behind the first word. -/
def branch (width : Nat) (mark : Mark) : Nat → Parse Node
  | 0 => tooDeep
  | depth + 1 => do
    let condition ← expression width depth
    let _ ← take .ifDo
    let thenBody ← block width ["ELSE", "END"] depth
    let elseBody ← if ← acceptText "ELSE" then block width ["END"] depth else pure []
    let _ ← take .ifEnd
    return .branch mark condition thenBody elseBody

/-- Reads `FOR ([initializer]; [condition]; [increment]) DO statements END` behind the first
word. -/
def forLoop (width : Nat) (mark : Mark) : Nat → Parse Node
  | 0 => tooDeep
  | depth + 1 => do
    let _ ← take .forOpen
    let first ← initializer width depth
    let condition ← if ← peekText ";" then pure .absent else expression width depth
    let _ ← take .conditionEnd
    let last ← if ← peekText ")" then pure .absent else increment width depth
    let _ ← take .forClose
    let _ ← take .forDo
    let body ← block width ["END"] depth
    let _ ← take .forEnd
    return .forLoop mark first condition last body

/-- Reads `WHILE condition DO statements END` behind the first word. -/
def whileLoop (width : Nat) (mark : Mark) : Nat → Parse Node
  | 0 => tooDeep
  | depth + 1 => do
    let condition ← expression width depth
    let _ ← take .whileDo
    let body ← block width ["END"] depth
    let _ ← take .whileEnd
    return .whileLoop mark condition body

end

end LetDef.Parser
