import Mathlib.Data.List.Basic
import Mathlib.Order.Bounds.Basic

/-!
# Edits

An edit inserts, deletes or substitutes one character of a text. `levenshtein` is the number of
edits between two texts as it is usually defined, by recursion on their first characters. No
sequence of edits from one text to the other is shorter and some sequence has this length, so it is
the least number of edits, and what holds of sequences of edits carries over: they can be undone,
joined and read backwards.
-/

namespace LetDef.Text

/-- One character is inserted, deleted or substituted. -/
inductive Edit : List Char → List Char → Prop
  | insert (u v : List Char) (c : Char) : Edit (u ++ v) (u ++ c :: v)
  | delete (u v : List Char) (c : Char) : Edit (u ++ c :: v) (u ++ v)
  | substitute (u v : List Char) (c d : Char) : Edit (u ++ c :: v) (u ++ d :: v)

/-- The first text is turned into the second by a number of edits, one after the other. -/
inductive EditedIn : Nat → List Char → List Char → Prop
  | refl (s : List Char) : EditedIn 0 s s
  | step {n : Nat} {s t u : List Char} (h : Edit s t) (hs : EditedIn n t u) : EditedIn (n + 1) s u

variable {m n : Nat} {s t u : List Char}

/-! ### Sequences of edits -/

namespace Edit

lemma cons (h : Edit s t) (c : Char) : Edit (c :: s) (c :: t) := by
  cases h with
  | insert u v d => exact .insert (c :: u) v d
  | delete u v d => exact .delete (c :: u) v d
  | substitute u v d e => exact .substitute (c :: u) v d e

lemma symm (h : Edit s t) : Edit t s := by
  cases h with
  | insert u v c => exact .delete u v c
  | delete u v c => exact .insert u v c
  | substitute u v c d => exact .substitute u v d c

lemma reverse (h : Edit s t) : Edit s.reverse t.reverse := by
  cases h with
  | insert u v c =>
    rw [List.reverse_append, List.reverse_append, List.reverse_cons, List.append_assoc]
    exact .insert v.reverse u.reverse c
  | delete u v c =>
    rw [List.reverse_append, List.reverse_append, List.reverse_cons, List.append_assoc]
    exact .delete v.reverse u.reverse c
  | substitute u v c d =>
    rw [List.reverse_append, List.reverse_append, List.reverse_cons, List.reverse_cons,
      List.append_assoc, List.append_assoc]
    exact .substitute v.reverse u.reverse c d

/-- An edit makes a text longer by at most one character. -/
lemma length_le (h : Edit s t) : t.length ≤ s.length + 1 := by
  cases h <;> simp only [List.length_append, List.length_cons] <;> omega

end Edit

namespace EditedIn

lemma trans (h : EditedIn m s t) (h' : EditedIn n t u) : EditedIn (m + n) s u := by
  induction h with
  | refl => rwa [Nat.zero_add]
  | step he _ ih =>
    rw [Nat.add_right_comm]
    exact .step he (ih h')

lemma symm (h : EditedIn n s t) : EditedIn n t s := by
  induction h with
  | refl s => exact .refl s
  | step he _ ih => exact ih.trans (.step he.symm (.refl _))

/-- The shorter of two sequences of edits. -/
protected lemma min (h : EditedIn m s t) (h' : EditedIn n s t) : EditedIn (min m n) s t := by
  rcases Nat.le_total m n with hle | hle
  · rwa [Nat.min_eq_left hle]
  · rwa [Nat.min_eq_right hle]

lemma cons (h : EditedIn n s t) (c : Char) : EditedIn n (c :: s) (c :: t) := by
  induction h with
  | refl s => exact .refl _
  | step he _ ih => exact .step (he.cons c) ih

lemma reverse (h : EditedIn n s t) : EditedIn n s.reverse t.reverse := by
  induction h with
  | refl s => exact .refl _
  | step he _ ih => exact .step he.reverse ih

lemma length_le (h : EditedIn n s t) : t.length ≤ s.length + n := by
  induction h with
  | refl s => exact Nat.le_refl _
  | step he _ ih =>
    have := he.length_le
    omega

lemma zero_iff : EditedIn 0 s t ↔ s = t := by
  constructor
  · intro h
    cases h
    rfl
  · rintro rfl
    exact .refl s

end EditedIn

/-! ### The recursive definition -/

/-- The number of edits between two texts: the first characters are the same or one is substituted
for the other, or the first character of one text is deleted or inserted. -/
def levenshtein : List Char → List Char → Nat
  | [], t => t.length
  | s, [] => s.length
  | a :: s, b :: t =>
    min (min (levenshtein s (b :: t) + 1) (levenshtein (a :: s) t + 1))
      (levenshtein s t + if a = b then 0 else 1)
termination_by s t => s.length + t.length

variable {a b c d : Char}

@[simp] lemma levenshtein_nil_left (t : List Char) : levenshtein [] t = t.length := by
  rw [levenshtein]

@[simp] lemma levenshtein_nil_right (s : List Char) : levenshtein s [] = s.length := by
  cases s with
  | nil => rw [levenshtein]
  | cons a s => rw [levenshtein]; exact List.cons_ne_nil a s

lemma levenshtein_cons_cons : levenshtein (a :: s) (b :: t) =
    min (min (levenshtein s (b :: t) + 1) (levenshtein (a :: s) t + 1))
      (levenshtein s t + if a = b then 0 else 1) := by
  rw [levenshtein]

lemma levenshtein_cons_left_le (a : Char) (s t : List Char) :
    levenshtein (a :: s) t ≤ levenshtein s t + 1 := by
  cases t with
  | nil => simp
  | cons b t => rw [levenshtein_cons_cons]; omega

lemma levenshtein_cons_right_le (b : Char) (s t : List Char) :
    levenshtein s (b :: t) ≤ levenshtein s t + 1 := by
  cases s with
  | nil => simp
  | cons a s => rw [levenshtein_cons_cons]; omega

lemma levenshtein_cons_cons_le (a b : Char) (s t : List Char) :
    levenshtein (a :: s) (b :: t) ≤ levenshtein s t + if a = b then 0 else 1 := by
  rw [levenshtein_cons_cons]
  exact Nat.min_le_right _ _

/-- The number is that of some sequence of edits. -/
lemma editedIn_levenshtein (s t : List Char) : EditedIn (levenshtein s t) s t := by
  fun_induction levenshtein s t with
  | case1 t =>
    induction t with
    | nil => exact .refl []
    | cons b t ih => exact .step (.insert [] [] b) (ih.cons b)
  | case2 s hs =>
    clear hs
    induction s with
    | nil => exact .refl []
    | cons a s ih => exact .step (.delete [] s a) ih
  | case3 a s b t ihdelete ihinsert ihboth =>
    have hdelete := EditedIn.step (.delete [] s a) ihdelete
    have hinsert := ihinsert.trans (.step (.insert [] t b) (.refl _))
    have hboth : EditedIn (levenshtein s t + if a = b then 0 else 1) (a :: s) (b :: t) := by
      split
      · next heq => exact heq ▸ ihboth.cons a
      · exact .step (.substitute [] s a b) (ihboth.cons b)
    exact (hdelete.min hinsert).min hboth

/-! ### No sequence of edits is shorter -/

/-- From any text, the second of two texts is at most one edit nearer than the first. -/
def Near (s s' : List Char) : Prop :=
  ∀ t, levenshtein s t ≤ levenshtein s' t + 1

lemma near_delete (c : Char) (s : List Char) : Near (c :: s) s :=
  levenshtein_cons_left_le c s

lemma near_insert (c : Char) (s : List Char) : Near s (c :: s) := by
  intro t
  induction t with
  | nil => simp only [levenshtein_nil_right, List.length_cons]; omega
  | cons b t ih =>
    have hright := levenshtein_cons_right_le b s t
    rw [levenshtein_cons_cons]
    omega

lemma near_substitute (c d : Char) (s : List Char) : Near (c :: s) (d :: s) := by
  intro t
  induction t with
  | nil => simp
  | cons b t ih =>
    have hleft := levenshtein_cons_left_le c s (b :: t)
    have hright := levenshtein_cons_right_le b (c :: s) t
    have hboth := levenshtein_cons_cons_le c b s t
    rw [levenshtein_cons_cons (a := d)]
    split at hboth <;> omega

lemma Near.cons {s s' : List Char} (h : Near s s') (c : Char) : Near (c :: s) (c :: s') := by
  intro t
  induction t with
  | nil => simpa using h []
  | cons b t ih =>
    have hleft := levenshtein_cons_left_le c s (b :: t)
    have hright := levenshtein_cons_right_le b (c :: s) t
    have hboth := levenshtein_cons_cons_le c b s t
    have hst := h t
    have hsbt := h (b :: t)
    rw [levenshtein_cons_cons (s := s')]
    omega

lemma Near.append {s s' : List Char} (h : Near s s') (u : List Char) : Near (u ++ s) (u ++ s') := by
  induction u with
  | nil => exact h
  | cons c u ih => exact ih.cons c

lemma Edit.near (h : Edit s t) : Near s t := by
  cases h with
  | insert u v c => exact (near_insert c v).append u
  | delete u v c => exact (near_delete c v).append u
  | substitute u v c d => exact (near_substitute c d v).append u

lemma levenshtein_self (s : List Char) : levenshtein s s = 0 := by
  induction s with
  | nil => simp
  | cons a s ih =>
    have := levenshtein_cons_cons_le a a s s
    rw [if_pos rfl, ih] at this
    exact Nat.le_zero.1 this

lemma levenshtein_le_of_editedIn (h : EditedIn n s t) : levenshtein s t ≤ n := by
  induction h with
  | refl s => exact (levenshtein_self s).le
  | step he _ ih => exact (he.near _).trans (Nat.succ_le_succ ih)

/-- The recursive definition gives the least number of edits. -/
theorem isLeast_levenshtein (s t : List Char) :
    IsLeast {n | EditedIn n s t} (levenshtein s t) :=
  ⟨editedIn_levenshtein s t, fun _ h => levenshtein_le_of_editedIn h⟩

/-! ### What sequences of edits tell -/

lemma levenshtein_eq_zero_iff : levenshtein s t = 0 ↔ s = t := by
  constructor
  · intro h
    have hedited := editedIn_levenshtein s t
    rw [h] at hedited
    exact EditedIn.zero_iff.1 hedited
  · rintro rfl
    exact levenshtein_self s

lemma levenshtein_comm (s t : List Char) : levenshtein s t = levenshtein t s :=
  Nat.le_antisymm (levenshtein_le_of_editedIn (editedIn_levenshtein t s).symm)
    (levenshtein_le_of_editedIn (editedIn_levenshtein s t).symm)

lemma levenshtein_triangle (s t u : List Char) :
    levenshtein s u ≤ levenshtein s t + levenshtein t u :=
  levenshtein_le_of_editedIn ((editedIn_levenshtein s t).trans (editedIn_levenshtein t u))

lemma levenshtein_reverse (s t : List Char) :
    levenshtein s.reverse t.reverse = levenshtein s t := by
  refine Nat.le_antisymm (levenshtein_le_of_editedIn (editedIn_levenshtein s t).reverse) ?_
  have hback := (editedIn_levenshtein s.reverse t.reverse).reverse
  rw [List.reverse_reverse, List.reverse_reverse] at hback
  exact levenshtein_le_of_editedIn hback

lemma length_le_add_levenshtein (s t : List Char) : t.length ≤ s.length + levenshtein s t :=
  (editedIn_levenshtein s t).length_le

lemma levenshtein_le_max (s t : List Char) : levenshtein s t ≤ max s.length t.length := by
  induction s generalizing t with
  | nil => simp
  | cons a s ih =>
    cases t with
    | nil => simp
    | cons b t =>
      have hboth := levenshtein_cons_cons_le a b s t
      have := ih t
      simp only [List.length_cons]
      split at hboth <;> omega

/-- The recursive definition also holds of the last characters. -/
lemma levenshtein_concat_concat (s t : List Char) (a b : Char) :
    levenshtein (s ++ [a]) (t ++ [b]) =
      min (min (levenshtein s (t ++ [b]) + 1) (levenshtein (s ++ [a]) t + 1))
        (levenshtein s t + if a = b then 0 else 1) := by
  have hback (u v : List Char) : levenshtein u v = levenshtein u.reverse v.reverse :=
    (levenshtein_reverse u v).symm
  rw [hback, hback s (t ++ [b]), hback (s ++ [a]) t, hback s t, List.reverse_concat,
    List.reverse_concat, levenshtein_cons_cons]

end LetDef.Text
