import LetDef.Token

/-!
# Lexemes

`readLexeme` finds the token that starts a text. Its first character decides the kind: letters and
underscores start identifiers, digits with an optional sign start numbers, quotes start character
and string literals, and everything else has to be an operator.
-/

namespace LetDef.Token

/-! ### Character classes -/

/-- The characters that separate tokens. -/
def isBlank (c : Char) : Bool :=
  c = ' ' || c = '\x08' || c = '\n' || c = '\r' || c = '\t'

/-- The decimal digits. -/
def isDigit (c : Char) : Bool :=
  '0' ≤ c && c ≤ '9'

/-- The characters that start an identifier. -/
def isNameStart (c : Char) : Bool :=
  ('a' ≤ c && c ≤ 'z') || ('A' ≤ c && c ≤ 'Z') || c = '_'

/-- The characters that continue an identifier. -/
def isNamePart (c : Char) : Bool :=
  isNameStart c || isDigit c || c = '-'

/-- The signs of a number. -/
def isSign (c : Char) : Bool :=
  c = '+' || c = '-'

/-- The line ends, which no literal holds unescaped. -/
def isLineEnd (c : Char) : Bool :=
  c = '\n' || c = '\r'

/-- The character that a backslash and `c` stand for. -/
def unescape? (c : Char) : Option Char :=
  match c with
  | 'b' => some '\x08'
  | 'n' => some '\n'
  | 'r' => some '\r'
  | 't' => some '\t'
  | '\'' => some '\''
  | '"' => some '"'
  | '\\' => some '\\'
  | _ => none

/-- The operators. One that starts another stands behind it, so the first that fits is longest. -/
def operators : List String :=
  ["&&", "||", "==", "!=", "<=", ">=",
   "+", "-", "*", "/", "%", "<", ">", "=", "!", "^", "~", "@",
   "(", ")", "\x7b", "\x7d", "[", "]", ",", ";", ".", ":"]

/-! ### Faults -/

/-- What is wrong with a text that starts no token. -/
inductive Malformation where
  | unknownOperator (c : Char)
  | unterminatedCharacter
  | unterminatedString
  | redundantZero (lexeme : List Char)
  | missingFraction (lexeme : List Char)
  | unknownEscape (lexeme : List Char)
  | invalidCharacter
  | lineEndInString
deriving DecidableEq, Repr

/-- A malformation and the number of characters before its place. -/
structure Misread where
  fault : Malformation
  skipped : Nat
deriving DecidableEq, Repr

/-! ### Reading -/

/-- The sign that starts a text, if one does, and the rest. -/
def splitSign : List Char → List Char × List Char
  | [] => ([], [])
  | c :: cs => if isSign c then ([c], cs) else ([], c :: cs)

/-- The number that starts a text. -/
def readNumber (cs : List Char) : Except Misread (Kind × List Char) :=
  let (sign, body) := splitSign cs
  let whole := body.takeWhile isDigit
  match whole with
  | '0' :: d :: _ => .error ⟨.redundantZero (sign ++ ['0', d]), sign.length + 1⟩
  | _ =>
    let integer := sign ++ whole
    match body.dropWhile isDigit with
    | '.' :: rest =>
      match rest.takeWhile isDigit with
      | [] => .error ⟨.missingFraction (integer ++ ['.']), integer.length + 1⟩
      | fraction => .ok (.decimal, integer ++ '.' :: fraction)
    | _ => .ok (.integer, integer)

/-- The escape whose backslash stands before the given text, `skipped` characters into a token. -/
def readEscape (skipped : Nat) : List Char → Except Misread (List Char)
  | [] => .error ⟨.unknownEscape ['\\'], skipped⟩
  | c :: _ =>
    if (unescape? c).isSome then .ok ['\\', c] else .error ⟨.unknownEscape ['\\', c], skipped⟩

/-- The one character or escape behind the opening quote of a character literal. -/
def readItem : List Char → Except Misread (List Char)
  | [] => .error ⟨.unterminatedCharacter, 1⟩
  | c :: cs =>
    if c = '\\' then readEscape 1 cs
    else if c = '\'' || isLineEnd c then .error ⟨.invalidCharacter, 1⟩
    else .ok [c]

/-- The character literal whose opening quote stands before the given text. -/
def readCharacter (cs : List Char) : Except Misread (List Char) := do
  let item ← readItem cs
  match cs.drop item.length with
  | '\'' :: _ => .ok ('\'' :: item ++ ['\''])
  | _ => .error ⟨.unterminatedCharacter, 1 + item.length⟩

/-- The rest of a string literal of which `skipped` characters have been read, through its closing
quote. -/
def readStringRest (skipped : Nat) : List Char → Except Misread (List Char)
  | [] => .error ⟨.unterminatedString, skipped⟩
  | '"' :: _ => .ok ['"']
  | ['\\'] => .error ⟨.unknownEscape ['\\'], skipped⟩
  | '\\' :: c :: cs =>
    if (unescape? c).isSome then
      (readStringRest (skipped + 2) cs).map fun rest => '\\' :: c :: rest
    else .error ⟨.unknownEscape ['\\', c], skipped⟩
  | c :: cs =>
    if isLineEnd c then .error ⟨.lineEndInString, skipped⟩
    else (readStringRest (skipped + 1) cs).map fun rest => c :: rest

/-- The operator that starts a text. -/
def readOperator (cs : List Char) : Option (List Char) :=
  (operators.map String.toList).find? (·.isPrefixOf cs)

/-- The token that starts the text `c :: cs`: its kind and its characters. -/
def readLexeme (c : Char) (cs : List Char) : Except Misread (Kind × List Char) :=
  if isNameStart c then .ok (.identifier, c :: cs.takeWhile isNamePart)
  else if isDigit c || (isSign c && (cs.head?.map isDigit).getD false) then readNumber (c :: cs)
  else if c = '\'' then (readCharacter cs).map fun lexeme => (.character, lexeme)
  else if c = '"' then (readStringRest 1 cs).map fun rest => (.string, '"' :: rest)
  else
    match readOperator (c :: cs) with
    | some lexeme => .ok (.operator, lexeme)
    | none => .error ⟨.unknownOperator c, 0⟩

end LetDef.Token
