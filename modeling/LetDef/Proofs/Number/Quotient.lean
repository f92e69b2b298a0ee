import LetDef.Proofs.Number.Text

/-!
# Quotients of decimals

A quotient is put together as a text: its coefficient, and behind an `E` the exponent of the
dividend. Reading that text gives just these two numbers back, so a quotient is its rounded
coefficient at the exponent of the dividend, and none is given for the digits of the coefficient
only.
-/

namespace LetDef.Decimal

open Number

lemma toList_integerText (n : Int) :
    (integerText n).toList = signText (n < 0) ++ digits n.natAbs := by
  rw [integerText_eq, String.toList_ofList]

lemma splitSign_integerText (n : Int) (rest : List Char) :
    splitSign ((integerText n).toList ++ rest) = (decide (n < 0), digits n.natAbs ++ rest) := by
  obtain ⟨d, ds, hdigits, hd⟩ := (wholePart_digits n.natAbs).eq_cons
  rw [toList_integerText, List.append_assoc, splitSign_append (signPart_signText _), signText_eq]
  intro c hc
  rw [hdigits] at hc
  cases hc
  exact hd

lemma signed_natAbs (n : Int) :
    (if decide (n < 0) = true then -(n.natAbs : Int) else n.natAbs) = n := by
  split
  · next hneg =>
    rw [decide_eq_true_eq] at hneg
    omega
  · next hneg =>
    rw [decide_eq_true_eq] at hneg
    omega

/-- The text of an integer is read as an exponent. -/
lemma readExponent?_integerText (e : Int) :
    readExponent? ('E' :: (integerText e).toList) = some e := by
  have hsplit := splitSign_integerText e []
  rw [List.append_nil, List.append_nil] at hsplit
  have hne : (digits e.natAbs).isEmpty = false :=
    List.isEmpty_eq_false_iff.2 (wholePart_digits e.natAbs).ne_nil
  have hall : (digits e.natAbs).all Char.isDigit = true :=
    List.all_eq_true.2 (all_isDigit (wholePart_digits e.natAbs).digits)
  unfold readExponent?
  simp only [hsplit, hne, hall, ofDigits_digits, Bool.not_true, Bool.or_self, Bool.false_eq_true,
    if_false, ← apply_ite some, signed_natAbs]

/-- The decimal of a coefficient and an exponent that are written as integers. -/
lemma ofText?_scientific (n e : Int) :
    ofText? (integerText n ++ "E" ++ integerText e) = some ⟨n < 0, n.natAbs, e⟩ := by
  have htext : (integerText n ++ "E" ++ integerText e).toList
      = (integerText n).toList ++ 'E' :: (integerText e).toList := by
    rw [String.toList_append, String.toList_append, List.append_assoc]
    rfl
  have hhead : ∀ c ∈ ('E' :: (integerText e).toList).head?, c.isDigit = false := by simp
  have hdigits := all_isDigit (wholePart_digits n.natAbs).digits
  have hne : (digits n.natAbs).isEmpty = false :=
    List.isEmpty_eq_false_iff.2 (wholePart_digits n.natAbs).ne_nil
  unfold ofText?
  rw [htext, splitSign_integerText]
  simp only [Token.takeWhile_append_of_head hdigits hhead,
    Token.dropWhile_append_of_head hdigits hhead]
  simp [hne, readExponent?_integerText, ofDigits_digits]

/-- The coefficient of a quotient. -/
def quotient (l r : Decimal) : ℤ :=
  roundNearest (l.toRat / r.toRat / 10 ^ l.exponent)

/-- The quotient is its coefficient at the exponent of the dividend. -/
lemma div?_eq (l r : Decimal) :
    l.div? r = if (l.quotient r).natAbs < digitBound
      then some ⟨l.quotient r < 0, (l.quotient r).natAbs, l.exponent⟩ else none := by
  change ((integerText? (l.quotient r)).bind fun digits =>
    ofText? (digits ++ "E" ++ integerText l.exponent)) = _
  unfold integerText?
  split
  · exact ofText?_scientific _ _
  · rfl

/-- A quotient has the exponent of the dividend, the rounded coefficient, and no sign if it is
zero. -/
lemma of_div? {l r d : Decimal} (h : l.div? r = some d) :
    d.exponent = l.exponent ∧ d.signed = l.quotient r ∧
      (d.coefficient = 0 → d.negative = false) := by
  rw [div?_eq] at h
  split at h
  · cases h
    refine ⟨rfl, signed_natAbs _, fun hzero => ?_⟩
    rw [Int.natAbs_eq_zero] at hzero
    rw [hzero]
    rfl
  · cases h

/-- A quotient is given just if its coefficient has not too many digits. -/
lemma div?_eq_none_iff {l r : Decimal} :
    l.div? r = none ↔ maxDigits < (digits (l.quotient r).natAbs).length := by
  have hbound := (lt_digitBound_iff (l.quotient r).natAbs).not
  rw [Nat.not_le] at hbound
  rw [div?_eq, ← hbound]
  split <;> simp_all

end LetDef.Decimal
