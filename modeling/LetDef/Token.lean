import LetDef.Position

/-!
# Tokens

Six kinds of token. A keyword is an identifier that the grammar recognizes by its text.
-/

namespace LetDef

/-- The kinds of token. -/
inductive Token.Kind where
  | identifier
  | integer
  | decimal
  | character
  | string
  | operator
deriving DecidableEq, Repr

/-- A piece of source text with its kind and its place. -/
structure Token where
  kind : Token.Kind
  lexeme : String
  position : Position
deriving DecidableEq, Repr

namespace Token

/-- The name of a kind in messages. -/
def Kind.name : Kind → String
  | .identifier => "identifier"
  | .integer => "integer"
  | .decimal => "decimal"
  | .character => "character"
  | .string => "string"
  | .operator => "operator"

/-- The name of a kind in token listings. -/
def Kind.label : Kind → String
  | .identifier => "IDENTIFIER"
  | .integer => "INTEGER"
  | .decimal => "DECIMAL"
  | .character => "CHARACTER"
  | .string => "STRING"
  | .operator => "OPERATOR"

/-- The kind with the given label. -/
def Kind.ofLabel? (label : String) : Option Kind :=
  [Kind.identifier, .integer, .decimal, .character, .string, .operator].find? (·.label == label)

/-- A token without its place. -/
def text (t : Token) : String :=
  t.kind.label ++ "(" ++ Text.quote t.lexeme ++ ")"

/-- A token with its offset. -/
def fullText (t : Token) : String :=
  "Token(" ++ t.kind.label ++ ", " ++ Text.quote t.lexeme ++ ", "
    ++ toString t.position.offset ++ ")"

/-- A token as one line of a listing. -/
def listing (t : Token) : String :=
  t.position.text ++ "\t" ++ t.kind.label ++ "\t" ++ t.lexeme

/-- Places the given lexemes in one line with a blank between neighbours, from `offset` on. -/
def layOut (file : String) : Nat → List (Kind × String) → List Token
  | _, [] => []
  | offset, (kind, lexeme) :: rest =>
    ⟨kind, lexeme, ⟨file, 1, offset + 1, offset⟩⟩ :: layOut file (offset + lexeme.length + 1) rest

end Token

end LetDef
