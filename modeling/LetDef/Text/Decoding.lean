/-!
# Decoding files

A file holds UTF-8. Each of the three ways to end a line counts as one newline.
-/

namespace LetDef.Text

/-- The characters with one newline for each line end, after `done` in reverse. -/
def unifyLineEnds (done : List Char) : List Char → List Char
  | [] => done.reverse
  | '\r' :: '\n' :: rest => unifyLineEnds ('\n' :: done) rest
  | '\r' :: rest => unifyLineEnds ('\n' :: done) rest
  | c :: rest => unifyLineEnds (c :: done) rest

/-- The text of a file, if it is one. A byte order mark is part of the text. -/
def decode? (bytes : ByteArray) : Option String :=
  (String.fromUTF8? bytes).map fun s => String.ofList (unifyLineEnds [] s.toList)

end LetDef.Text
