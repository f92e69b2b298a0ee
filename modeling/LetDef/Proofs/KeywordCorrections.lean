import LetDef.Parser.Fault
import LetDef.Proofs.EditDistance
import Mathlib.Data.List.Pairwise
import Mathlib.Data.List.Sublists

/-!
# Corrections of keywords

Which keywords a word may stand for does not depend on the order in which the keywords are gone
through, although the list is cut after three and keywords at the same distance come in that order.
Keywords that one word is close to are close to each other by the triangle inequality, and no four
of them are. So the cut never drops a keyword.
-/

namespace LetDef

variable {word a b : String} {order : List String}

/-! ### Keywords that are close to one word -/

/-- The keywords are so near each other that a word may be close to both. -/
def Confusable (a b : String) : Prop :=
  Text.distance a b ≤ keywordTolerance a + keywordTolerance b

instance : DecidableRel Confusable :=
  fun _ _ => Nat.decLe _ _

lemma isCorrection_iff : isCorrection word a = true ↔
    a ≠ word ∧ Text.distance word.toUpper a ≤ keywordTolerance a := by
  simp [isCorrection]

lemma confusable_of_isCorrection (ha : isCorrection word a = true)
    (hb : isCorrection word b = true) : Confusable a b := by
  have htriangle := Text.distance_triangle a word.toUpper b
  rw [Text.distance_comm a word.toUpper] at htriangle
  exact htriangle.trans (Nat.add_le_add (isCorrection_iff.1 ha).2 (isCorrection_iff.1 hb).2)

lemma not_pairwise_confusable : ∀ l ∈ keywords.sublistsLen 4, ¬ l.Pairwise Confusable := by
  decide +kernel

/-- No word is close to more than three keywords. -/
lemma length_filter_isCorrection_le (word : String) :
    (keywords.filter (isCorrection word)).length ≤ 3 := by
  by_contra hlong
  let four := (keywords.filter (isCorrection word)).take 4
  have hsublist : four.Sublist (keywords.filter (isCorrection word)) := List.take_sublist _ _
  have hlength : four.length = 4 := by
    rw [List.length_take]
    omega
  have hpairs : four.Pairwise Confusable := by
    refine List.pairwise_of_forall_mem_list fun a ha b hb => ?_
    exact confusable_of_isCorrection (List.mem_filter.1 (hsublist.subset ha)).2
      (List.mem_filter.1 (hsublist.subset hb)).2
  exact not_pairwise_confusable four
    (List.mem_sublistsLen.2 ⟨hsublist.trans List.filter_sublist, hlength⟩) hpairs

/-! ### Every order of the keywords -/

lemma perm_filter_isCorrection (h : order.Perm keywords) (word : String) :
    (order.filter (isCorrection word)).Perm (keywords.filter (isCorrection word)) :=
  h.filter _

/-- The cut after three drops nothing. -/
lemma correctionsAmong_eq (h : order.Perm keywords) (word : String) :
    correctionsAmong order word = (order.filter (isCorrection word)).mergeSort
      fun a b => Text.distance word.toUpper a ≤ Text.distance word.toUpper b := by
  refine List.take_of_length_le ?_
  rw [List.length_mergeSort, (perm_filter_isCorrection h word).length_eq]
  exact length_filter_isCorrection_le word

lemma correctionsAmong_perm (h : order.Perm keywords) (word : String) :
    (correctionsAmong order word).Perm (keywords.filter (isCorrection word)) := by
  rw [correctionsAmong_eq h]
  exact (List.mergeSort_perm _ _).trans (perm_filter_isCorrection h word)

lemma correctionsAmong_sorted (h : order.Perm keywords) (word : String) :
    (correctionsAmong order word).Pairwise
      fun a b => Text.distance word.toUpper a ≤ Text.distance word.toUpper b := by
  rw [correctionsAmong_eq h]
  refine (List.pairwise_mergeSort ?_ ?_ _).imp of_decide_eq_true
  · intro a b c hab hbc
    exact decide_eq_true ((of_decide_eq_true hab).trans (of_decide_eq_true hbc))
  · intro a b
    rw [Bool.or_eq_true, decide_eq_true_eq, decide_eq_true_eq]
    exact Nat.le_total _ _

lemma mem_correctionsAmong (h : order.Perm keywords) : a ∈ correctionsAmong order word ↔
    a ∈ keywords ∧ a ≠ word ∧ Text.distance word.toUpper a ≤ if 4 < a.length then 2 else 1 := by
  rw [(correctionsAmong_perm h word).mem_iff, List.mem_filter, isCorrection_iff, keywordTolerance]

lemma nodup_correctionsAmong (h : order.Perm keywords) (word : String) :
    (correctionsAmong order word).Nodup := by
  have hkeywords : keywords.Nodup := by decide
  exact (correctionsAmong_perm h word).nodup_iff.2 (hkeywords.filter _)

/-- The suggestion of a fault does not depend on the order of the keywords. -/
lemma suggestionsAmong_eq (h : order.Perm keywords) (slot : Parser.Slot) (found : Token) :
    Parser.Fault.suggestionsAmong order slot found = Parser.Fault.suggestions slot found := by
  have hcontains (s : String) : (correctionsAmong order found.lexeme).contains s
      = (correctionsAmong keywords found.lexeme).contains s := by
    rw [Bool.eq_iff_iff, List.contains_iff_mem, List.contains_iff_mem, mem_correctionsAmong h,
      mem_correctionsAmong (.refl _)]
  rw [Parser.Fault.suggestions, Parser.Fault.suggestionsAmong, Parser.Fault.suggestionsAmong]
  simp only [hcontains]

/-- In whatever order the keywords are gone through, the corrections of a word are, each once and
the nearest first, all keywords other than the word that are within two edits of its upper-case form
or, if they have no more than four letters, within one. There are at most three, so none is cut off,
and neither the set of them nor the suggestion of a fault depends on the order. -/
theorem corrections_never_cut (order : List String) (h : order.Perm keywords) (word : String) :
    (correctionsAmong order word).Nodup ∧
    ((correctionsAmong order word).Pairwise
      fun a b => Text.distance word.toUpper a ≤ Text.distance word.toUpper b) ∧
    (∀ keyword, keyword ∈ correctionsAmong order word ↔
      keyword ∈ keywords ∧ keyword ≠ word ∧
        Text.distance word.toUpper keyword ≤ if 4 < keyword.length then 2 else 1) ∧
    (order.filter (isCorrection word)).length ≤ 3 ∧
    (correctionsAmong order word).Perm (keywordCorrections word) ∧
    ∀ slot found, Parser.Fault.suggestionsAmong order slot found
      = Parser.Fault.suggestions slot found := by
  refine ⟨nodup_correctionsAmong h word, correctionsAmong_sorted h word,
    fun _ => mem_correctionsAmong h, ?_, ?_, suggestionsAmong_eq h⟩
  · rw [(perm_filter_isCorrection h word).length_eq]
    exact length_filter_isCorrection_le word
  · exact (correctionsAmong_perm h word).trans (correctionsAmong_perm (.refl _) word).symm

/-- A word that is one edit away from three keywords: gone through backwards, the keywords come in
another order, and they are the same. -/
theorem corrections_never_cut_three :
    correctionsAmong keywords.reverse "df" = ["IF", "DO", "DEF"] ∧
    keywordCorrections "df" = ["DEF", "DO", "IF"] ∧
    (correctionsAmong keywords.reverse "df").Perm (keywordCorrections "df") ∧
    ∀ slot found, Parser.Fault.suggestionsAmong keywords.reverse slot found
      = Parser.Fault.suggestions slot found := by
  have hnear : (keywords.reverse.filter (isCorrection "df") = ["IF", "DO", "DEF"] ∧
        keywords.filter (isCorrection "df") = ["DEF", "DO", "IF"]) ∧
      ∀ l ∈ [["IF", "DO", "DEF"], ["DEF", "DO", "IF"]], l.Pairwise fun a b =>
        decide (Text.distance "df".toUpper a ≤ Text.distance "df".toUpper b) = true := by
    decide +kernel
  have hsort (order l : List String) (hl : order.filter (isCorrection "df") = l)
      (hsorted : l.Pairwise fun a b =>
        decide (Text.distance "df".toUpper a ≤ Text.distance "df".toUpper b) = true) :
      correctionsAmong order "df" = l.take 3 := by
    unfold correctionsAmong
    dsimp only
    rw [hl, List.mergeSort_of_pairwise hsorted]
  obtain ⟨-, -, -, -, hperm, hsuggestions⟩ :=
    corrections_never_cut keywords.reverse keywords.reverse_perm "df"
  exact ⟨hsort _ _ hnear.1.1 (hnear.2 _ (by simp)), hsort _ _ hnear.1.2 (hnear.2 _ (by simp)),
    hperm, hsuggestions⟩

end LetDef
