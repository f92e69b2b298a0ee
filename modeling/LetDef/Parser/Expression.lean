import LetDef.Parser.Literal

/-!
# Parsing expressions

Binary operators come in four levels, each of which binds tighter than the one before and groups
to the left. `depth` bounds the nesting of the rules: a rule takes one unit and an operator level
two. `width` bounds the number of repetitions; the number of tokens is always enough.
-/

namespace LetDef.Parser

/-- The levels of binary operators. -/
inductive Level where
  | logical
  | comparison
  | additive
  | multiplicative
deriving DecidableEq, Repr

/-- The operators of a level. -/
def Level.operators : Level → List String
  | .logical => ["&&", "||"]
  | .comparison => ["<", "<=", ">", ">=", "==", "!="]
  | .additive => ["+", "-"]
  | .multiplicative => ["*", "/"]

/-- The next tighter level. -/
def Level.tighter? : Level → Option Level
  | .logical => some .comparison
  | .comparison => some .additive
  | .additive => some .multiplicative
  | .multiplicative => none

/-- Takes the next token if it is one of the operators. -/
def acceptOperator? (operators : List String) : Parse (Option Token) := do
  match ← get with
  | [] => pure none
  | t :: rest => if operators.contains t.lexeme then set rest; pure (some t) else pure none

/-- Reads operators of a level and their right operands, grouping to the left. -/
def operatorChain (operators : List String) (operand : Parse Node) : Nat → Node → Parse Node
  | 0, left => pure left
  | width + 1, left => do
    match ← acceptOperator? operators with
    | none => pure left
    | some t =>
      let right ← operand
      operatorChain operators operand width
        (.binary { position := left.mark.position } t.lexeme left right)

/-- Reads the accesses and calls that follow an expression, each behind a point. -/
def memberChain (arguments : Parse (List Node)) : Nat → Node → Parse Node
  | 0, e => pure e
  | width + 1, e => do
    if ← acceptText "." then
      let name ← take .memberName
      if ← acceptText "(" then
        memberChain arguments width (.call (markOf name) e name.lexeme (← arguments))
      else memberChain arguments width (.access (markOf name) e name.lexeme)
    else pure e

mutual

/-- Reads an expression. -/
def expression (width : Nat) : Nat → Parse Node
  | 0 => tooDeep
  | depth + 1 => operation width .logical depth

/-- Reads an expression whose outer operators are of the given level or tighter. -/
def operation (width : Nat) (level : Level) : Nat → Parse Node
  | depth + 2 => do
    let operand := match level.tighter? with
      | some tighter => operation width tighter depth
      | none => secondary width depth
    operatorChain level.operators operand width (← operand)
  | _ => tooDeep

/-- Reads an expression without binary operators. -/
def secondary (width : Nat) : Nat → Parse Node
  | 0 => tooDeep
  | depth + 1 => do memberChain (arguments width depth) width (← primary width depth)

/-- Reads a literal, a group, a variable or a call. -/
def primary (width : Nat) : Nat → Parse Node
  | 0 => tooDeep
  | depth + 1 => do
    match ← get with
    | [] => miss .primary
    | t :: rest =>
      if t.lexeme == "NIL" then set rest; return literalAt t .nil "nil"
      if t.lexeme == "TRUE" then set rest; return literalAt t (.boolean true) "boolean"
      if t.lexeme == "FALSE" then set rest; return literalAt t (.boolean false) "boolean"
      match t.kind with
      | .integer => set rest; integerLiteral t
      | .decimal => set rest; decimalLiteral t
      | .character => set rest; characterLiteral t
      | .string => set rest; stringLiteral t
      | _ =>
        if t.lexeme == "(" then
          set rest
          let body ← expression width depth
          let _ ← take .groupClose
          return .group (markOf t) body
        if t.kind == .identifier then
          set rest
          if ← acceptText "(" then
            return .call (markOf t) .absent t.lexeme (← arguments width depth)
          return .access (markOf t) .absent t.lexeme
        miss .primary

/-- Reads the arguments of a call behind its opening parenthesis, and the closing one. -/
def arguments (width : Nat) : Nat → Parse (List Node)
  | 0 => tooDeep
  | depth + 1 => do
    let items ← if ← peekText ")" then pure [] else commaList (expression width depth) width
    let _ ← take .argumentsClose
    return items

end

end LetDef.Parser
