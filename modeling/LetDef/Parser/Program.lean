import LetDef.Parser.Statement
import LetDef.Syntax.Program

/-!
# Parsing programs

`Program.ofTokens` reads a whole list of tokens as a program.
-/

namespace LetDef.Parser

/-- Reads `LET [CONST] name [: Type] [= value];` behind the first word. -/
def field (width : Nat) (mark : Mark) : Nat → Parse Field
  | 0 => tooDeep
  | depth + 1 => do
    let constant ← acceptText "CONST"
    let name ← take .fieldName
    let typeName ← nameAfter ":" .typeName
    let value ← partAfter "=" (expression width depth)
    let _ ← take .fieldEnd
    return ⟨mark, name.lexeme, typeName, constant, value⟩

/-- Reads a parameter and its type, which is `Any` unless given. -/
def parameter : Parse (String × String) := do
  let name ← take .parameterName
  let typeName ← nameAfter ":" .parameterType
  return (name.lexeme, typeName.getD "Any")

/-- Reads `DEF name(parameters) [: Type] DO statements END` behind the first word. -/
def method (width : Nat) (mark : Mark) : Nat → Parse Method
  | 0 => tooDeep
  | depth + 1 => do
    let name ← take .methodName
    let _ ← take .parametersOpen
    let parameters ← if ← peekText ")" then pure [] else commaList parameter width
    let _ ← take .parametersClose
    let returnType ← nameAfter ":" .returnType
    let _ ← take .methodDo
    let body ← block width ["END"] depth
    let _ ← take .methodEnd
    return ⟨mark, name.lexeme, parameters.map (·.1), parameters.map (·.2), returnType, body⟩

/-- Reads declarations as long as the next token is the word that starts them. -/
def declarations {α : Type} (word : String) (item : Mark → Parse α) : Nat → Parse (List α)
  | 0 => return []
  | width + 1 => do
    let mark ← here
    if ← acceptText word then
      let first ← item mark
      return first :: (← declarations word item width)
    return []

/-- Reads a program to the end of the tokens. -/
def program (width depth : Nat) : Parse Program := do
  let mark ← here
  let fields ← declarations "LET" (fun mark => field width mark depth) width
  let methods ← declarations "DEF" (fun mark => method width mark depth) width
  match ← get with
  | [] => return ⟨mark, fields, methods⟩
  | found :: _ => fail (.unexpected .topLevel found)

/-- How deeply the rules of the grammar may be nested. -/
def maxDepth : Nat := 988

end LetDef.Parser

namespace LetDef

/-- The program that the tokens are, with rules nested no deeper than `depth`. -/
def Program.ofTokens (depth : Nat) (tokens : List Token) : Except Parser.Halt Program :=
  (Parser.program tokens.length depth).run' tokens

end LetDef
