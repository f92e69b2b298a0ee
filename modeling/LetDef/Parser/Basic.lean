import LetDef.Parser.Fault
import LetDef.Syntax.Node

/-!
# Reading tokens

The state of a parser is the list of tokens still to be read.
-/

namespace LetDef.Parser

/-- A reader of tokens. -/
abbrev Parse := StateT (List Token) (Except Halt)

/-- Stops with a fault. -/
def fail {α : Type} (f : Fault) : Parse α :=
  throw (.fault f)

/-- Stops because the tokens are nested too deeply. -/
def tooDeep {α : Type} : Parse α :=
  throw .tooDeep

/-- Stops because the slot is not filled. -/
def miss {α : Type} (slot : Slot) : Parse α := do
  match ← get with
  | [] => fail (.ended slot)
  | found :: _ => fail (.unexpected slot found)

/-- Whether the next token fits the pattern. -/
def peek (p : Pattern) : Parse Bool := do
  match ← get with
  | [] => pure false
  | t :: _ => pure (p.fits t)

/-- Whether the next token has the text. -/
def peekText (s : String) : Parse Bool :=
  peek (.text s)

/-- Takes the next token if it fits the pattern. -/
def accept? (p : Pattern) : Parse (Option Token) := do
  match ← get with
  | [] => pure none
  | t :: rest => if p.fits t then set rest; pure (some t) else pure none

/-- Takes the next token if it has the text. -/
def acceptText (s : String) : Parse Bool := do
  return (← accept? (.text s)).isSome

/-- Takes the token that fills the slot. -/
def take (slot : Slot) : Parse Token := do
  match ← accept? slot.pattern with
  | some t => pure t
  | none => miss slot

/-- The mark of the next token. -/
def here : Parse Mark := do
  match ← get with
  | [] => pure {}
  | t :: _ => pure { position := some t.position }

/-- The mark of a token. -/
def markOf (t : Token) : Mark :=
  { position := some t.position }

/-- A name behind the text, where the text is next. -/
def nameAfter (s : String) (slot : Slot) : Parse (Option String) := do
  if ← acceptText s then return some (← take slot).lexeme else return none

/-- What `p` reads behind the text, where the text is next. -/
def partAfter (s : String) (p : Parse Node) : Parse Node := do
  if ← acceptText s then p else pure .absent

/-- The items of a list with commas between them, at most `width` more than one. -/
def commaList {α : Type} (item : Parse α) : Nat → Parse (List α)
  | 0 => return [← item]
  | width + 1 => do
    let first ← item
    if ← acceptText "," then return first :: (← commaList item width) else return [first]

end LetDef.Parser
