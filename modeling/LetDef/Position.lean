import LetDef.Text.Quoted

/-!
# Positions in a source text

Positions count code points. Lines and columns start at one, offsets at zero, and only a line
feed starts a new line.
-/

namespace LetDef

/-- A place in a named text. -/
structure Position where
  file : String
  line : Nat
  column : Nat
  offset : Nat
deriving DecidableEq, Repr

namespace Position

/-- The first position of a text. -/
def start (file : String) : Position :=
  ⟨file, 1, 1, 0⟩

/-- The position behind the character `c`. -/
def next (p : Position) (c : Char) : Position :=
  if c = '\n' then ⟨p.file, p.line + 1, 1, p.offset + 1⟩
  else ⟨p.file, p.line, p.column + 1, p.offset + 1⟩

/-- The position behind the characters `cs`. -/
def after (p : Position) (cs : List Char) : Position :=
  cs.foldl next p

/-- A position as diagnostics show it. -/
def text (p : Position) : String :=
  p.file ++ ":" ++ toString p.line ++ ":" ++ toString p.column

/-- A position with its kind and all its parts. -/
def fullText (p : Position) : String :=
  "SourceLocation(" ++ Text.quote p.file ++ ", " ++ toString p.line ++ ", "
    ++ toString p.column ++ ", " ++ toString p.offset ++ ")"

@[simp] theorem after_nil (p : Position) : p.after [] = p := rfl

@[simp] theorem after_cons (p : Position) (c : Char) (cs : List Char) :
    p.after (c :: cs) = (p.next c).after cs := rfl

theorem after_append (p : Position) (cs ds : List Char) :
    p.after (cs ++ ds) = (p.after cs).after ds :=
  List.foldl_append

end Position

end LetDef
