import LetDef.Proofs.Text.Edits
import LetDef.Text.Distance
import Mathlib.Algebra.Order.Group.Abs
import Mathlib.Algebra.Order.Group.Int

/-!
# The edit distance

The distance of two texts is computed row by row. Each row is the row of the table that holds the
least numbers of edits to the initial segments of the second text, so the last entry of the last row
is the least number of edits between the whole texts, and distances make texts a metric space.
-/

namespace LetDef.Text

/-! ### Rows -/

/-- The least numbers of edits that turn `s` into `u` and into each longer text up to `u ++ t`. -/
def row (s : List Char) : List Char → List Char → List Nat
  | u, [] => [levenshtein s u]
  | u, d :: t => levenshtein s u :: row s (u ++ [d]) t

lemma row_eq_cons (s u t : List Char) : row s u t = levenshtein s u :: (row s u t).tail := by
  cases t <;> rfl

lemma row_nil (u t : List Char) : row [] u t = List.range' u.length (t.length + 1) := by
  induction t generalizing u with
  | nil => simp [row]
  | cons d t ih => simp [row, ih, List.range'_succ]

lemma getLast?_row (s u t : List Char) : (row s u t).getLast? = some (levenshtein s (u ++ t)) := by
  induction t generalizing u with
  | nil => simp [row]
  | cons d t ih =>
    have hrest := ih (u ++ [d])
    rw [row_eq_cons] at hrest
    rw [row, row_eq_cons s (u ++ [d]), List.getLast?_cons_cons, hrest, List.append_assoc]
    rfl

/-- A row is filled from the left: `u` is what lies behind and `t` what lies ahead. -/
lemma fillRow_row (s u t : List Char) (c : Char) :
    fillRow c (levenshtein (s ++ [c]) u) t (row s u t) = (row (s ++ [c]) u t).tail := by
  induction t generalizing u with
  | nil => rfl
  | cons d t ih =>
    rw [row, row_eq_cons s (u ++ [d]), fillRow, ← levenshtein_concat_concat, ← row_eq_cons, ih, row,
      List.tail_cons, ← row_eq_cons]

/-- One more character of the first text makes the next row of the table. -/
lemma nextRow_row (s t : List Char) (c : Char) :
    nextRow t (row s [] t) c = row (s ++ [c]) [] t := by
  have hfirst : levenshtein s [] + 1 = levenshtein (s ++ [c]) [] := by simp
  rw [row_eq_cons, nextRow, ← row_eq_cons, hfirst, fillRow_row, ← row_eq_cons]

lemma foldl_nextRow (r s t : List Char) :
    s.foldl (nextRow t) (row r [] t) = row (r ++ s) [] t := by
  induction s generalizing r with
  | nil => rw [List.append_nil]; rfl
  | cons c s ih => rw [List.foldl_cons, nextRow_row, ih, List.append_assoc]; rfl

/-- The last row of the table belongs to the whole first text. -/
lemma lastRow_eq (s t : List Char) : lastRow s t = row s [] t := by
  have hstart : List.range (t.length + 1) = row [] [] t := by
    rw [row_nil, List.range_eq_range']
    rfl
  rw [lastRow, hstart, foldl_nextRow, List.nil_append]

/-! ### The distance -/

/-- The last entry of the last row is the distance, and so is the length where there are no rows. -/
lemma distanceToShorter_eq (s t : List Char) : distanceToShorter s t = levenshtein s t := by
  unfold distanceToShorter
  split
  · next hempty => rw [List.length_eq_zero_iff.1 hempty, levenshtein_nil_right]
  · rw [lastRow_eq, getLast?_row]
    rfl

/-- The distance is what the recursive definition gives, whichever text goes down the rows. -/
lemma distance_eq (s t : String) : distance s t = levenshtein s.toList t.toList := by
  unfold distance
  dsimp only
  rw [distanceToShorter_eq, distanceToShorter_eq, levenshtein_comm t.toList, ite_self]

lemma distance_eq_zero_iff {s t : String} : distance s t = 0 ↔ s = t := by
  rw [distance_eq, levenshtein_eq_zero_iff, String.toList_inj]

lemma distance_comm (s t : String) : distance s t = distance t s := by
  rw [distance_eq, distance_eq, levenshtein_comm]

lemma distance_triangle (s t u : String) : distance s u ≤ distance s t + distance t u := by
  rw [distance_eq, distance_eq, distance_eq]
  exact levenshtein_triangle _ _ _

lemma abs_length_sub_le_distance (s t : String) :
    |(s.length : ℤ) - t.length| ≤ distance s t := by
  have hst := length_le_add_levenshtein s.toList t.toList
  have hts := length_le_add_levenshtein t.toList s.toList
  rw [levenshtein_comm] at hts
  rw [String.length_toList, String.length_toList, ← distance_eq] at hst hts
  rw [abs_le]
  omega

lemma distance_le_max (s t : String) : distance s t ≤ max s.length t.length := by
  rw [distance_eq, ← String.length_toList, ← String.length_toList]
  exact levenshtein_le_max _ _

/-- The distance of two texts is the least number of insertions, deletions and substitutions of a
character that turn one into the other, as the recursive definition gives it. So it is zero just for
equal texts, does not depend on their order, satisfies the triangle inequality, and lies between the
difference of the lengths and the greater length. -/
theorem distance_is_metric (s t : String) :
    IsLeast {n | EditedIn n s.toList t.toList} (distance s t) ∧
    distance s t = levenshtein s.toList t.toList ∧
    (distance s t = 0 ↔ s = t) ∧
    distance s t = distance t s ∧
    (∀ u, distance s u ≤ distance s t + distance t u) ∧
    |(s.length : ℤ) - t.length| ≤ distance s t ∧
    distance s t ≤ max s.length t.length := by
  refine ⟨?_, distance_eq s t, distance_eq_zero_iff, distance_comm s t, distance_triangle s t,
    abs_length_sub_le_distance s t, distance_le_max s t⟩
  rw [distance_eq]
  exact isLeast_levenshtein _ _

end LetDef.Text
