import LetDef.Text.Distance

/-!
# Keywords

The reserved words of the grammar, and which of them a misspelt word may stand for.
-/

namespace LetDef

/-- The words that the grammar recognizes by their text. -/
def keywords : List String :=
  ["LET", "CONST", "DEF", "DO", "END", "IF", "ELSE", "FOR", "WHILE", "RETURN", "NIL", "TRUE",
   "FALSE"]

/-- The largest distance at which a word is taken for the keyword. -/
def keywordTolerance (keyword : String) : Nat :=
  if 4 < keyword.length then 2 else 1

/-- Whether a keyword other than `word` is close to its upper-case form. -/
def isCorrection (word keyword : String) : Bool :=
  keyword != word && Text.distance word.toUpper keyword ≤ keywordTolerance keyword

/-- The keywords other than `word` that are close to its upper-case form, at most three, nearest
first. Where two are equally near, they come in the order in which the keywords are given. -/
def correctionsAmong (order : List String) (word : String) : List String :=
  let near := order.filter (isCorrection word)
  (near.mergeSort fun a b => Text.distance word.toUpper a ≤ Text.distance word.toUpper b).take 3

/-- The corrections of a word among the keywords. -/
def keywordCorrections (word : String) : List String :=
  correctionsAmong keywords word

end LetDef
