import LetDef.Parser.Basic
import LetDef.Token.Lexeme

/-!
# Literals

From the text of a literal token to its value.
-/

namespace LetDef.Parser

/-- The text that a body with escapes stands for, or the character that follows a backslash and is
no escape. A backslash at the end stands for itself. -/
def decode : List Char → Except Char (List Char)
  | [] => .ok []
  | [c] => .ok [c]
  | '\\' :: c :: cs =>
    match Token.unescape? c with
    | none => .error c
    | some d => (decode cs).map fun ds => d :: ds
  | c :: cs => (decode cs).map fun ds => c :: ds

/-- The text between the quotes of a literal token. -/
def unquote (t : Token) : Parse (List Char) :=
  match decode (t.lexeme.toList.drop 1).dropLast with
  | .ok cs => pure cs
  | .error c => fail (.unknownEscape c t)

/-- A literal node at a token. -/
def literalAt (t : Token) (value : Value) (sort : String) : Node :=
  .literal (markOf t) (.value value) sort

/-- The node of an integer token. -/
def integerLiteral (t : Token) : Parse Node :=
  match Number.readInteger? t.lexeme with
  | some n => pure (literalAt t (.integer n) "integer")
  | none => throw .unreadableInteger

/-- The node of a decimal token. -/
def decimalLiteral (t : Token) : Parse Node :=
  match Decimal.ofText? t.lexeme with
  | some d => pure (literalAt t (.decimal d) "decimal")
  | none => throw .unreadableDecimal

/-- The node of a character token. -/
def characterLiteral (t : Token) : Parse Node := do
  match ← unquote t with
  | [c] => pure (literalAt t (.text c.toString) "character")
  | _ => fail (.invalidCharacter t)

/-- The node of a string token. -/
def stringLiteral (t : Token) : Parse Node := do
  return literalAt t (.text (String.ofList (← unquote t))) "string"

end LetDef.Parser
