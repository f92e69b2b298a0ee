import LetDef.Execution.Evaluation
import LetDef.Proofs.Number.Rational

/-!
# Decimal arithmetic

Sums, differences and products of decimals are exact, and their exponents depend on the exponents of
the operands alone. A decimal is given by its exponent, its value and whether it is the negative
zero; a sum is the negative zero just if both terms are. So the laws of rings carry over from the
values to the decimals, with the signs of zeros, except that the two sides of the distributive law
may be zeros of different signs.
-/

namespace LetDef

namespace Decimal

variable {a b c d : Decimal}

/-! ### Values -/

/-- The signed coefficient at a smaller exponent stands for the same number. -/
lemma scaled_mul_zpow {e : ℤ} (h : e ≤ d.exponent) : (d.scaled e : ℚ) * 10 ^ e = d.toRat := by
  have hpow : (10 : ℚ) ^ (d.exponent - e).toNat * 10 ^ e = 10 ^ d.exponent := by
    rw [← zpow_natCast, ← zpow_add₀ (by norm_num), Int.toNat_of_nonneg (Int.sub_nonneg.2 h),
      sub_add_cancel]
  unfold scaled toRat unit
  rw [← hpow]
  push_cast [Number.cast_powerOfTen]
  ring

/-- The coefficient with the sign of a number of that size is the number. -/
lemma signed_of_natAbs {n : ℤ} (hc : d.coefficient = n.natAbs)
    (hn : n ≠ 0 → d.negative = decide (n < 0)) : d.signed = n := by
  unfold signed
  rw [hc]
  by_cases hzero : n = 0
  · simp [hzero]
  · rw [hn hzero]
    split
    · next hneg =>
      rw [decide_eq_true_eq] at hneg
      omega
    · next hneg =>
      rw [decide_eq_true_eq] at hneg
      omega

lemma signed_add (a b : Decimal) : (a.add b).signed =
    a.scaled (min a.exponent b.exponent) + b.scaled (min a.exponent b.exponent) :=
  signed_of_natAbs rfl fun h => if_neg h

/-- The sum has the value of the sum. -/
lemma toRat_add (a b : Decimal) : (a.add b).toRat = a.toRat + b.toRat := by
  have hsum : (a.add b).toRat = ((a.scaled (min a.exponent b.exponent) : ℚ)
      + b.scaled (min a.exponent b.exponent)) * 10 ^ min a.exponent b.exponent := by
    rw [toRat, signed_add]
    push_cast
    rfl
  rw [hsum, add_mul, scaled_mul_zpow (min_le_left _ _), scaled_mul_zpow (min_le_right _ _)]

lemma toRat_neg (d : Decimal) : d.neg.toRat = -d.toRat := by
  have hsigned : d.neg.signed = -d.signed := by
    unfold neg signed
    cases d.negative <;> simp
  rw [toRat, hsigned]
  push_cast
  exact neg_mul _ _

/-- The difference has the value of the difference. -/
lemma toRat_sub (a b : Decimal) : (a.sub b).toRat = a.toRat - b.toRat := by
  rw [sub, toRat_add, toRat_neg, sub_eq_add_neg]

lemma sign_mul (a b : Decimal) : (a.mul b).sign = a.sign * b.sign := by
  unfold sign mul
  cases a.negative <;> cases b.negative <;> rfl

/-- The product has the value of the product. -/
lemma toRat_mul (a b : Decimal) : (a.mul b).toRat = a.toRat * b.toRat := by
  have hunit : (a.mul b).unit = a.unit * b.unit := zpow_add₀ (by norm_num) _ _
  rw [toRat_eq, toRat_eq, toRat_eq, sign_mul, hunit]
  push_cast [mul]
  ring

/-! ### Signs -/

/-- The decimal is zero and has the negative sign. -/
def IsNegativeZero (d : Decimal) : Prop :=
  d.negative = true ∧ d.coefficient = 0

lemma negative_iff : d.negative = true ↔ d.toRat < 0 ∨ d.IsNegativeZero := by
  have hsize : 0 ≤ (d.coefficient : ℚ) * d.unit := by
    have := d.unit_pos
    positivity
  rw [toRat_eq, IsNegativeZero]
  constructor
  · intro hneg
    rcases Nat.eq_zero_or_pos d.coefficient with hzero | hpos
    · exact .inr ⟨hneg, hzero⟩
    · have hpos : 0 < (d.coefficient : ℚ) * d.unit := mul_pos (Nat.cast_pos.2 hpos) d.unit_pos
      refine .inl ?_
      simpa [sign, hneg] using hpos
  · rintro (hlt | ⟨hneg, -⟩)
    · by_contra hneg
      have hsign : d.sign = 1 := if_neg hneg
      rw [hsign, Int.cast_one, one_mul] at hlt
      exact absurd hsize (not_le.2 hlt)
    · exact hneg

/-- A decimal is determined by its exponent, its value and whether it is the negative zero. -/
lemma eq_of_value (he : a.exponent = b.exponent) (hv : a.toRat = b.toRat)
    (hz : a.IsNegativeZero ↔ b.IsNegativeZero) : a = b := by
  have hnegative : a.negative = b.negative := by
    rw [Bool.eq_iff_iff, negative_iff, negative_iff, hv, hz]
  have hsign : a.sign = b.sign := by
    unfold sign
    rw [hnegative]
  have hunit : a.unit = b.unit := by
    unfold unit
    rw [he]
  rw [toRat_eq, toRat_eq, hsign, hunit] at hv
  have hcoefficient : (a.coefficient : ℚ) = b.coefficient :=
    mul_right_cancel₀ b.unit_pos.ne'
      (mul_left_cancel₀ (Int.cast_ne_zero.2 b.sign_ne_zero) hv)
  cases a
  cases b
  simp_all

/-- Terms that both have the negative sign add up to zero only if they are zeros. -/
lemma isNegativeZero_add : (a.add b).IsNegativeZero ↔ a.IsNegativeZero ∧ b.IsNegativeZero := by
  have hnegative : (a.add b).toRat = 0 →
      ((a.add b).negative = true ↔ a.negative = true ∧ b.negative = true) := by
    intro hzero
    have hsigned : (a.add b).signed = 0 := by
      rw [signed_eq, (toRat_eq_zero_iff _).1 hzero]
      simp
    rw [signed_add] at hsigned
    simp [add, hsigned]
  constructor
  · rintro ⟨hneg, hzero⟩
    have hvalue := (toRat_eq_zero_iff _).2 hzero
    obtain ⟨ha, hb⟩ := (hnegative hvalue).1 hneg
    rw [toRat_add] at hvalue
    have hle : ∀ {x : Decimal}, x.negative = true → x.toRat ≤ 0 := by
      intro x hx
      rcases negative_iff.1 hx with hlt | hx
      · exact hlt.le
      · exact ((toRat_eq_zero_iff x).2 hx.2).le
    have hle_a := hle ha
    have hle_b := hle hb
    exact ⟨⟨ha, (toRat_eq_zero_iff a).1 (by linarith)⟩, hb, (toRat_eq_zero_iff b).1 (by linarith)⟩
  · rintro ⟨ha, hb⟩
    have hvalue : (a.add b).toRat = 0 := by
      rw [toRat_add, (toRat_eq_zero_iff a).2 ha.2, (toRat_eq_zero_iff b).2 hb.2, add_zero]
    exact ⟨(hnegative hvalue).2 ⟨ha.1, hb.1⟩, (toRat_eq_zero_iff _).1 hvalue⟩

/-! ### Laws -/

protected lemma add_comm (a b : Decimal) : a.add b = b.add a := by
  refine eq_of_value (min_comm _ _) ?_ ?_
  · rw [toRat_add, toRat_add, add_comm]
  · rw [isNegativeZero_add, isNegativeZero_add, and_comm]

protected lemma add_assoc (a b c : Decimal) : (a.add b).add c = a.add (b.add c) := by
  refine eq_of_value (min_assoc _ _ _) ?_ ?_
  · simp only [toRat_add, add_assoc]
  · simp only [isNegativeZero_add, and_assoc]

protected lemma mul_comm (a b : Decimal) : a.mul b = b.mul a := by
  unfold mul
  rw [bne_comm, mul_comm, add_comm]

protected lemma mul_assoc (a b c : Decimal) : (a.mul b).mul c = a.mul (b.mul c) := by
  unfold mul
  rw [Bool.bne_assoc, mul_assoc, add_assoc]

lemma sameValue_iff : a.sameValue b = true ↔ a.toRat = b.toRat := by
  have hpos : (0 : ℚ) < 10 ^ min a.exponent b.exponent := zpow_pos (by norm_num) _
  unfold sameValue compareValue
  rw [beq_iff_eq, compare_eq_iff_eq, ← scaled_mul_zpow (min_le_left a.exponent b.exponent),
    ← scaled_mul_zpow (min_le_right a.exponent b.exponent), mul_left_inj' hpos.ne', Int.cast_inj]

lemma same_iff : a.same b = true ↔ a.toRat = b.toRat ∧ a.exponent = b.exponent := by
  rw [same, Bool.and_eq_true, sameValue_iff, beq_iff_eq]

/-- The two sides of the distributive law have the same value at the same exponent. -/
lemma same_mul_add (a b c : Decimal) :
    (a.mul (b.add c)).same ((a.mul b).add (a.mul c)) = true := by
  rw [same_iff]
  constructor
  · simp only [toRat_mul, toRat_add, mul_add]
  · exact (min_add_add_left a.exponent b.exponent c.exponent).symm

/-! ### The range of exponents -/

/-- The decimal lies in the range of exponents. -/
def InRange (d : Decimal) : Prop :=
  minExponent ≤ d.exponent ∧ d.adjusted ≤ maxExponent

instance (d : Decimal) : Decidable d.InRange :=
  inferInstanceAs (Decidable (_ ∧ _))

/-- A decimal in the range stays as it is. -/
lemma InRange.confine? (h : d.InRange) : d.confine? = some d := by
  obtain ⟨hmin, hadjusted⟩ := h
  have hmax : d.exponent ≤ maxExponent := (Int.le_add_of_nonneg_right (by simp)).trans hadjusted
  unfold Decimal.confine?
  split
  · rw [min_eq_left hmax, max_eq_right hmin]
  · rw [if_neg (by simpa using fun _ => hadjusted), if_neg (not_lt.2 hmin)]

end Decimal

/-! ### The operators -/

namespace Execution

lemma operate_add (a b : Decimal) :
    operate "+" (.decimal a) (.decimal b) = .ok (.decimal (a.add b)) := rfl

lemma operate_mul (a b : Decimal) :
    operate "*" (.decimal a) (.decimal b) = .ok (.decimal (a.mul b)) := rfl

lemma operate_same (a b : Decimal) :
    operate "==" (.decimal a) (.decimal b) = .ok (.boolean (a.same b)) := rfl

lemma operateAt_of_inRange {site : Site} {operator : String} {left right : Object} {d : Decimal}
    (h : operate operator left.value right.value = .ok (.decimal d)) (hd : d.InRange) :
    operateAt site operator left right = pure (.of (.decimal d)) := by
  have hv : (Value.decimal d).confine? = some (.decimal d) := congrArg (Option.map _) hd.confine?
  simp only [operateAt, h, hv]

/-- The value of a chain of the operator that is grouped to the left. -/
def groupedLeft (operator : String) (a b c : Value) : Except Refusal Value := do
  operate operator (← operate operator a b) c

/-- The value of a chain of the operator that is grouped to the right. -/
def groupedRight (operator : String) (a b c : Value) : Except Refusal Value := do
  operate operator a (← operate operator b c)

/-- The value of `a * (b + c)`. -/
def factored (a b c : Value) : Except Refusal Value := do
  operate "*" a (← operate "+" b c)

/-- The value of `a * b + a * c`. -/
def expanded (a b c : Value) : Except Refusal Value := do
  operate "+" (← operate "*" a b) (← operate "*" a c)

/-- The two sides of the distributive law may be zeros of different signs. -/
example :
    factored (.decimal ⟨true, 1, 0⟩) (.decimal ⟨false, 1, 0⟩) (.decimal ⟨true, 1, 0⟩) =
      .ok (.decimal ⟨true, 0, 0⟩) ∧
    expanded (.decimal ⟨true, 1, 0⟩) (.decimal ⟨false, 1, 0⟩) (.decimal ⟨true, 1, 0⟩) =
      .ok (.decimal ⟨false, 0, 0⟩) := ⟨rfl, rfl⟩

end Execution

end LetDef
