/-!
# Edit distance

The Levenshtein distance between two texts, computed row by row: row `i` holds the distances from
the first `i` characters of one text to every initial segment of the other. The longer text goes
down the rows, and there are no rows if the other is empty.
-/

namespace LetDef.Text

/-- The rest of a row for the character `c`, given the entry to the left and the row above. -/
def fillRow (c : Char) : Nat → List Char → List Nat → List Nat
  | left, t :: ts, diagonal :: up :: above =>
    let entry := min (min (up + 1) (left + 1)) (diagonal + if c = t then 0 else 1)
    entry :: fillRow c entry ts (up :: above)
  | _, _, _ => []

/-- The row below `above` after one more character `c`. -/
def nextRow (t : List Char) (above : List Nat) (c : Char) : List Nat :=
  match above with
  | [] => []
  | first :: _ => (first + 1) :: fillRow c (first + 1) t above

/-- The last row of the table for the characters `s` against `t`. -/
def lastRow (s t : List Char) : List Nat :=
  s.foldl (nextRow t) (List.range (t.length + 1))

/-- The distance of `s` to a text `t` that is not longer. -/
def distanceToShorter (s t : List Char) : Nat :=
  if t.length = 0 then s.length else (lastRow s t).getLast?.getD 0

/-- The least number of insertions, deletions and substitutions of a character that turn `s`
into `t`. -/
def distance (s t : String) : Nat :=
  let s := s.toList
  let t := t.toList
  if s.length < t.length then distanceToShorter t s else distanceToShorter s t

end LetDef.Text
