import LetDef.Keyword
import LetDef.Parser.Slot
import LetDef.Report

/-!
# Parse faults

Why a list of tokens is no program.
-/

namespace LetDef.Parser

/-- What is wrong with a list of tokens. -/
inductive Fault where
  /-- A token that does not fit into the slot. -/
  | unexpected (slot : Slot) (found : Token)
  /-- No token where the slot has to be filled. -/
  | ended (slot : Slot)
  /-- A backslash before a character that it does not go with, in a literal. -/
  | unknownEscape (c : Char) (token : Token)
  /-- A character literal of no or several characters. -/
  | invalidCharacter (token : Token)
deriving DecidableEq, Repr

/-- Why parsing stops short of a program. -/
inductive Halt where
  | fault (f : Fault)
  /-- The text of an integer has no value, or too many digits. -/
  | unreadableInteger
  /-- The text of a decimal has no value. -/
  | unreadableDecimal
  /-- The tokens are nested too deeply. -/
  | tooDeep
deriving DecidableEq, Repr

namespace Fault

/-- The token at fault; none at the end of the input. -/
def token? : Fault → Option Token
  | .unexpected _ found => some found
  | .ended _ => none
  | .unknownEscape _ token => some token
  | .invalidCharacter token => some token

/-- The offset of the token at fault. -/
def offset? (f : Fault) : Option Nat :=
  f.token?.map (·.position.offset)

/-- The code of a slot that is wrongly filled or, at the end of the input, not at all. -/
def slotCode (usual : String) : Slot → String
  | .topLevel => "P005"
  | .incrementTarget | .incrementEquals => "P003"
  | _ => usual

/-- The keyword that a slot takes, if the token found there looks like it. The keywords are given in
any order. -/
def suggestionsAmong (order : List String) (slot : Slot) (found : Token) : Option (List String) :=
  match slot.pattern with
  | .kind _ => none
  | .text s =>
    if found.kind = .identifier && (correctionsAmong order found.lexeme).contains s then
      some ["Did you mean '" ++ s ++ "'?"]
    else none

/-- The keyword that a slot takes, if the token found there looks like it. -/
def suggestions (slot : Slot) (found : Token) : Option (List String) :=
  suggestionsAmong keywords slot found

/-- What is said about a slot that the end of the input leaves open. -/
def endHelp : Slot → Option String
  | .primary => none
  | slot => some ("Expected " ++ slot.pattern.describe ++ " before the end of input.")

/-- The report of a fault. -/
def report : Fault → Report
  | .unexpected slot found =>
    { message := slot.message
      position := some found.position
      code := some (slotCode "P001" slot)
      help := some ("Expected " ++ slot.pattern.describe ++ " but found '" ++ found.lexeme ++ "'.")
      suggestions := suggestions slot found }
  | .ended slot =>
    { message := slot.message
      code := some (slotCode "P002" slot)
      help := endHelp slot }
  | .unknownEscape c token =>
    { message := "Invalid escape sequence '\\" ++ c.toString ++ "'."
      position := some token.position
      code := some "P004" }
  | .invalidCharacter token =>
    { message := "Invalid character literal."
      position := some token.position
      code := some "P004" }

end Fault

end LetDef.Parser
