import LetDef.Token.Lexeme
import LetDef.Report

/-!
# Scanning

`Token.scan` cuts a text into tokens. It stops at the first text that starts none and says where.
-/

namespace LetDef.Token

/-- A malformation at its place. -/
structure ScanError where
  fault : Malformation
  position : Position
deriving DecidableEq, Repr

/-- The tokens of a text of which the next `skip` characters belong to a token read before. -/
def scanFrom (p : Position) (skip : Nat) : List Char → Except ScanError (List Token)
  | [] => .ok []
  | c :: cs =>
    match skip with
    | skip + 1 => scanFrom (p.next c) skip cs
    | 0 =>
      if isBlank c then scanFrom (p.next c) 0 cs
      else
        match readLexeme c cs with
        | .error e => .error ⟨e.fault, p.after ((c :: cs).take e.skipped)⟩
        | .ok (kind, lexeme) =>
          match scanFrom (p.next c) (lexeme.length - 1) cs with
          | .error e => .error e
          | .ok rest => .ok (⟨kind, String.ofList lexeme, p⟩ :: rest)

/-- The tokens of a text. -/
def scan (file source : String) : Except ScanError (List Token) :=
  scanFrom (.start file) 0 source.toList

/-! ### Reports -/

/-- The code point as `U+` and at least four upper-case hexadecimal digits. -/
def codePointText (c : Char) : String :=
  "U+" ++ String.ofList ((Text.hexDigits 4 c.toNat).map Char.toUpper)

/-- The code of a malformation. -/
def Malformation.code : Malformation → String
  | .unknownOperator _ => "L001"
  | .unterminatedCharacter => "L002"
  | .unterminatedString => "L002"
  | .redundantZero _ => "L003"
  | .missingFraction _ => "L003"
  | .unknownEscape _ => "L004"
  | .invalidCharacter => "L005"
  | .lineEndInString => "L006"

/-- What is wrong, in words. -/
def Malformation.message : Malformation → String
  | .unknownOperator c => "Invalid operator: '" ++ c.toString ++ "'"
  | .unterminatedCharacter => "Unterminated character literal"
  | .unterminatedString => "Unterminated string literal"
  | .redundantZero lexeme => "Invalid numeric literal: '" ++ String.ofList lexeme ++ "'"
  | .missingFraction lexeme => "Invalid numeric literal: '" ++ String.ofList lexeme ++ "'"
  | .unknownEscape lexeme => "Invalid escape sequence: '" ++ String.ofList lexeme ++ "'"
  | .invalidCharacter => "Invalid character literal"
  | .lineEndInString => "Unescaped newline in string literal"

/-- The rule that was broken. -/
def Malformation.help : Malformation → String
  | .unknownOperator c =>
    if Text.isPrintable c then
      "The character '" ++ c.toString ++ "' is not valid in PLC source code."
    else "Non-printable character (Unicode: " ++ codePointText c ++ ") is not allowed."
  | .unterminatedCharacter => "Character literals must be closed with a matching ' quote."
  | .unterminatedString => "String literals must be closed with a matching \" quote."
  | .redundantZero _ => "Integer literals cannot have redundant leading zeros."
  | .missingFraction _ => "A decimal point must be followed by at least one digit."
  | .unknownEscape _ => "Valid escapes are \\b, \\n, \\r, \\t, \\', \\\" and \\\\."
  | .invalidCharacter =>
    "Character literals hold exactly one character; use an escape for quotes and newlines."
  | .lineEndInString => "Use \\n or \\r inside string literals."

/-- The report of a scanning error. -/
def ScanError.report (e : ScanError) : Report where
  message := e.fault.message
  position := some e.position
  code := some e.fault.code
  help := some e.fault.help

end LetDef.Token
