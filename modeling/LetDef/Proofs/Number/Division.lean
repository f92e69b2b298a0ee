import LetDef.Proofs.DepthGuard
import LetDef.Proofs.Number.Quotient
import Mathlib.Algebra.Group.Int.Even
import Mathlib.Algebra.Order.Group.Unbundled.Int
import Mathlib.Tactic.Positivity

/-!
# Division

Integers are divided toward zero. Decimals are divided at the scale of the dividend: of all
multiples of its unit the quotient is the nearest to the exact one, and of two that are equally near
the one with the even coefficient. Only the number of its digits can keep a quotient from being
given, and only a divisor that is zero is a fault.
-/

namespace LetDef

namespace Number

/-! ### Rounding -/

/-- The integer is as near to the number as any, and even if another is just as near. -/
structure RoundsTo (x : ℚ) (c : ℤ) : Prop where
  near : |x - c| ≤ 1 / 2
  even : |x - c| = 1 / 2 → Even c

variable {x : ℚ} {c c' : ℤ}

/-- Two integers that are both nearest are half a unit away on either side, and not both even. -/
lemma RoundsTo.unique (h : RoundsTo x c) (h' : RoundsTo x c') : c = c' := by
  by_contra hne
  wlog hlt : c < c' generalizing c c'
  · exact this h' h (Ne.symm hne) (lt_of_le_of_ne (not_lt.1 hlt) (Ne.symm hne))
  have hstep : (c : ℚ) + 1 ≤ c' := by exact_mod_cast hlt
  have hlow : x ≤ c + 1 / 2 := by linarith [(abs_le.1 h.near).2]
  have hhigh : c' - 1 / 2 ≤ x := by linarith [(abs_le.1 h'.near).1]
  have hx : x - c = 1 / 2 := by linarith
  have hx' : x - c' = -(1 / 2) := by linarith
  have hc' : (c' : ℚ) = (c + 1 : ℤ) := by
    push_cast
    linarith
  have heven : Even c := h.even (by rw [hx, abs_of_pos one_half_pos])
  have heven' : Even c' := h'.even (by rw [hx', abs_neg, abs_of_pos one_half_pos])
  rw [Int.cast_injective hc'] at heven'
  exact Int.not_even_iff_odd.2 heven.add_one heven'

/-- What is left of a number when its whole part is taken away. -/
lemma sub_whole (x : ℚ) : x - (x.num / x.den : ℤ) = (x.num % x.den : ℤ) / x.den := by
  have hd : (x.den : ℚ) ≠ 0 := Nat.cast_ne_zero.2 x.den_nz
  have hnum : (x.num : ℚ) = x.den * (x.num / x.den : ℤ) + (x.num % x.den : ℤ) := by
    exact_mod_cast (Int.mul_ediv_add_emod x.num x.den).symm
  nth_rewrite 1 [← x.num_div_den]
  rw [sub_eq_iff_eq_add, div_eq_iff hd, add_mul, div_mul_cancel₀ _ hd]
  linarith

lemma roundsTo_roundNearest (x : ℚ) : RoundsTo x (roundNearest x) := by
  have hd : (0 : ℚ) < x.den := Nat.cast_pos.2 x.den_pos
  have hden : (0 : ℤ) < x.den := Int.natCast_pos.2 x.den_pos
  have hrest := sub_whole x
  have hnonneg : (0 : ℚ) ≤ (x.num % x.den : ℤ) / x.den :=
    div_nonneg (Int.cast_nonneg (Int.emod_nonneg _ hden.ne')) hd.le
  have hbelow : 2 * (x.num % x.den) < x.den ↔ ((x.num % x.den : ℤ) : ℚ) / x.den < 1 / 2 := by
    rw [div_lt_div_iff₀ hd two_pos, one_mul, mul_comm]
    exact_mod_cast Iff.rfl
  have habove : x.den < 2 * (x.num % x.den) ↔ 1 / 2 < ((x.num % x.den : ℤ) : ℚ) / x.den := by
    rw [div_lt_div_iff₀ two_pos hd, one_mul, mul_comm]
    exact_mod_cast Iff.rfl
  have hlt : ((x.num % x.den : ℤ) : ℚ) / x.den < 1 := by
    rw [div_lt_one hd]
    exact_mod_cast Int.emod_lt_of_pos x.num hden
  generalize ((x.num % x.den : ℤ) : ℚ) / x.den = rest at hrest hnonneg hlt hbelow habove
  -- The whole part or the next integer, as the rest lies below, above or at one half.
  have hup : x - (x.num / x.den + 1 : ℤ) = rest - 1 := by
    rw [Int.cast_add, Int.cast_one]
    linarith
  unfold roundNearest
  dsimp only
  split_ifs with hless hmore heven
  · rw [hbelow] at hless
    constructor <;> rw [hrest, abs_of_nonneg hnonneg]
    · exact hless.le
    · exact fun htie => absurd htie hless.ne
  · rw [habove] at hmore
    constructor <;> rw [hup, abs_of_neg (by linarith)]
    · linarith
    · intro htie
      linarith
  all_goals
    rw [hbelow, not_lt] at hless
    rw [habove, not_lt] at hmore
    have hhalf : rest = 1 / 2 := le_antisymm hmore hless
  · refine ⟨by rw [hrest, hhalf, abs_of_pos one_half_pos], fun _ => ?_⟩
    exact Int.even_iff.2 heven
  · refine ⟨by rw [hup, hhalf]; norm_num [abs_of_neg], fun _ => ?_⟩
    have hodd : Odd (x.num / x.den) := Int.not_even_iff_odd.1 fun h => heven (Int.even_iff.1 h)
    exact hodd.add_one

/-- The quotient of the absolute values has the sign that the quotient rounded toward zero has. -/
lemma divideTruncated_eq_tdiv (l r : ℤ) : divideTruncated l r = l.tdiv r := by
  have hsigned (n : ℤ) : n = if n < 0 then -(n.natAbs : ℤ) else n.natAbs := by
    split <;> omega
  have htdiv : l.tdiv r = (if l < 0 then -(l.natAbs : ℤ) else l.natAbs).tdiv
      (if r < 0 then -(r.natAbs : ℤ) else r.natAbs) := by
    rw [← hsigned l, ← hsigned r]
  unfold divideTruncated
  rw [htdiv, Int.ofNat_tdiv]
  by_cases hl : l < 0 <;> by_cases hr : r < 0 <;> simp [hl, hr, Int.neg_tdiv, Int.tdiv_neg]

/-- An integer is the truncated quotient times the divisor and a rest that is smaller than the
divisor and lies on the same side of zero. -/
lemma eq_divideTruncated_mul_add (l : ℤ) {r : ℤ} (hr : r ≠ 0) :
    ∃ m, l = divideTruncated l r * r + m ∧ |m| < |r| ∧ (m = 0 ∨ m.sign = l.sign) := by
  refine ⟨l.tmod r, ?_, ?_, ?_⟩
  · rw [divideTruncated_eq_tdiv, mul_comm]
    exact (Int.mul_tdiv_add_tmod l r).symm
  · rw [Int.abs_eq_natAbs, Int.abs_eq_natAbs, Int.natAbs_tmod]
    exact_mod_cast Nat.mod_lt _ (Int.natAbs_pos.2 hr)
  · rw [← Int.sign_eq_zero_iff_zero, Int.sign_tmod]
    split
    · exact .inl rfl
    · exact .inr rfl

/-- To be within half a unit of a number is to be within one half when counting in units. -/
lemma roundsTo_div_iff {u : ℚ} (hu : 0 < u) :
    RoundsTo (x / u) c ↔ |x - c * u| ≤ u / 2 ∧ (|x - c * u| = u / 2 → Even c) := by
  have habs : |x / u - c| = |x - c * u| / u := by
    rw [div_sub' hu.ne', abs_div, abs_of_pos hu, mul_comm u]
  have hle : |x / u - c| ≤ 1 / 2 ↔ |x - c * u| ≤ u / 2 := by
    rw [habs, div_le_iff₀ hu, one_div_mul_eq_div]
  have htie : |x / u - c| = 1 / 2 ↔ |x - c * u| = u / 2 := by
    rw [habs, div_eq_iff hu.ne', one_div_mul_eq_div]
  constructor
  · rintro ⟨hnear, heven⟩
    exact ⟨hle.1 hnear, fun h => heven (htie.2 h)⟩
  · rintro ⟨hnear, heven⟩
    exact ⟨hle.2 hnear, fun h => heven (htie.1 h)⟩

end Number

/-! ### Decimals -/

namespace Decimal

open Number

variable {l r : Decimal}

/-- Of all multiples of the dividend's unit the one with the coefficient is nearest to the exact
quotient, and the coefficient is even if another is equally near. -/
def RoundedQuotient (l r : Decimal) (c : ℤ) : Prop :=
  |l.toRat / r.toRat - c * 10 ^ l.exponent| ≤ 10 ^ l.exponent / 2 ∧
    (|l.toRat / r.toRat - c * 10 ^ l.exponent| = 10 ^ l.exponent / 2 → Even c)

lemma roundedQuotient_iff {c : ℤ} :
    RoundedQuotient l r c ↔ RoundsTo (l.toRat / r.toRat / l.unit) c :=
  (roundsTo_div_iff l.unit_pos).symm

lemma roundedQuotient_quotient (l r : Decimal) : RoundedQuotient l r (l.quotient r) :=
  roundedQuotient_iff.2 (roundsTo_roundNearest _)

end Decimal

/-! ### The operator -/

namespace Execution

variable {fuel depth : Nat} {scope : Scope} {mark : Mark} {left right : Node} {w w₁ w₂ : World}
  {l r : Object} {site : Site}

/-- A division ends as the operator does with what its operands yield. -/
lemma outcome_division (hl : Gives (evaluate N fuel scope left depth) w l w₁)
    (hr : Gives (evaluate N fuel scope right depth) w₁ r w₂) :
    outcome (operation N fuel scope mark "/" left right (depth + 1)) w
      = outcome (operateAt ⟨some .binary, mark.position⟩ "/" l r) w₂ := by
  rw [operation, if_neg (by decide), if_neg (by decide), outcome_bind, hl]
  dsimp only
  rw [outcome_bind, hr]

lemma operate_integers (a b : Int) :
    operate "/" (.integer a) (.integer b) =
      if b = 0 then .error (.cause .divisionByZero)
      else .ok (.integer (Number.divideTruncated a b)) :=
  rfl

lemma operate_decimals (a b : Decimal) :
    operate "/" (.decimal a) (.decimal b) =
      if b.isZero then .error (.cause .divisionByZero)
      else (a.div? b).elim (.error .tooManyDigits) fun q => .ok (.decimal q) := by
  change decimalOperation "/" a b = _
  unfold decimalOperation
  cases a.div? b <;> rfl

lemma code?_eq_divisionByZero {c : Cause} : c.code? = some "R020" ↔ c = .divisionByZero := by
  cases c with
  | naming e => cases hdup : e.isDuplicate <;> simp [Cause.code?, hdup]
  | _ => simp [Cause.code?]

/-- The operator faults with that code just if it finds a division by zero. -/
lemma faults_operateAt_iff {operator : String} :
    Faults "R020" (outcome (operateAt site operator l r) w).1 ↔
      operate operator l.value r.value = .error (.cause .divisionByZero) := by
  unfold operateAt Faults
  rcases operate operator l.value r.value with (c | _) | v
  · change (∃ f, Except.error (Halt.fault ⟨c, site⟩) = _ ∧ _) ↔ _
    simp [code?_eq_divisionByZero]
  · change (∃ f, Except.error Halt.tooManyDigits = _ ∧ _) ↔ _
    simp
  · dsimp only
    cases v.confine? with
    | some v =>
      change (∃ f, Except.ok (Object.of v) = _ ∧ _) ↔ _
      simp
    | none =>
      change (∃ f, Except.error (Halt.overflow operator) = _ ∧ _) ↔ _
      simp

lemma faults_integers {a b : Int} (hl : l.value = .integer a) (hr : r.value = .integer b) :
    Faults "R020" (outcome (operateAt site "/" l r) w).1 ↔ b = 0 := by
  rw [faults_operateAt_iff, hl, hr, operate_integers]
  by_cases hb : b = 0 <;> simp [hb]

lemma faults_decimals {a b : Decimal} (hl : l.value = .decimal a) (hr : r.value = .decimal b) :
    Faults "R020" (outcome (operateAt site "/" l r) w).1 ↔ b.toRat = 0 := by
  rw [faults_operateAt_iff, hl, hr, operate_decimals, ← b.isZero_iff]
  by_cases hb : b.isZero = true
  · simp [hb]
  · cases a.div? b <;> simp [hb]

end Execution

open Decimal Execution in
/-- Integers are divided toward zero. The quotient of decimals has the exponent of the dividend and
the coefficient that is nearest, the even one of two, and zero is not negative; there is none just
if that coefficient has more than 4300 digits. The operator faults just if the divisor is zero. -/
theorem division_rounded :
    (∀ l r : ℤ, r ≠ 0 → ∃ m, l = Number.divideTruncated l r * r + m ∧ |m| < |r| ∧
      (m = 0 ∨ m.sign = l.sign)) ∧
    (∀ l r : Decimal, r.toRat ≠ 0 → ∃ c : ℤ, RoundedQuotient l r c ∧
      (∀ c', RoundedQuotient l r c' → c' = c) ∧
      (l.div? r = none ↔ 4300 < (Number.digits c.natAbs).length) ∧
      ∀ d, l.div? r = some d → d.exponent = l.exponent ∧ d.signed = c ∧
        (d.coefficient = 0 → d.negative = false)) ∧
    (∀ (N : Natives) fuel depth scope mark left right w w₁ w₂ l r,
      Gives (Execution.evaluate N fuel scope left depth) w l w₁ →
      Gives (Execution.evaluate N fuel scope right depth) w₁ r w₂ →
      (∀ a b : Int, l.value = .integer a → r.value = .integer b →
        (Faults "R020" (outcome (operation N fuel scope mark "/" left right (depth + 1)) w).1 ↔
          b = 0)) ∧
      ∀ a b : Decimal, l.value = .decimal a → r.value = .decimal b →
        (Faults "R020" (outcome (operation N fuel scope mark "/" left right (depth + 1)) w).1 ↔
          b.toRat = 0)) := by
  refine ⟨fun l r => Number.eq_divideTruncated_mul_add l, ?_, ?_⟩
  · intro l r _
    have hrounds := roundedQuotient_quotient l r
    refine ⟨_, hrounds, fun c' hc' => ?_, div?_eq_none_iff, fun d => of_div?⟩
    exact (roundedQuotient_iff.1 hc').unique (roundedQuotient_iff.1 hrounds)
  · intro N fuel depth scope mark left right w w₁ w₂ l r hl hr
    rw [outcome_division hl hr]
    exact ⟨fun a b => faults_integers, fun a b => faults_decimals⟩

/-- The literal of a decimal. -/
def Node.ofDecimal (d : Decimal) : Node :=
  .literal {} (.value (.decimal d)) "decimal"

/-- A negative dividend halfway between two multiples of its unit, and a divisor that is a negative
zero at another scale. -/
theorem division_rounded_halfway :
    (⟨true, 25, -1⟩ : Decimal).div? ⟨false, 1, 1⟩ = some ⟨true, 2, -1⟩ ∧
    Decimal.RoundedQuotient ⟨true, 25, -1⟩ ⟨false, 1, 1⟩ (-2) ∧
    Execution.Faults "R020" (outcome (Execution.operation .none 9 ⟨0, []⟩ {} "/"
      (.ofDecimal ⟨true, 25, -1⟩) (.ofDecimal ⟨true, 0, 3⟩) 2) {}).1 := by
  obtain ⟨_, hdecimals, hoperator⟩ := division_rounded
  have hquotient : (⟨true, 25, -1⟩ : Decimal).div? ⟨false, 1, 1⟩ = some ⟨true, 2, -1⟩ := by
    decide +kernel
  obtain ⟨c, hrounded, _, _, hgiven⟩ := hdecimals ⟨true, 25, -1⟩ ⟨false, 1, 1⟩
    (by rw [Ne, Decimal.toRat_eq_zero_iff]; decide)
  obtain ⟨_, hc, _⟩ := hgiven _ hquotient
  rw [← hc] at hrounded
  refine ⟨hquotient, hrounded, ?_⟩
  have hfaults := (hoperator .none 9 1 ⟨0, []⟩ {} (.ofDecimal ⟨true, 25, -1⟩)
    (.ofDecimal ⟨true, 0, 3⟩) {} _ _ _ _ rfl rfl).2 _ _ rfl rfl
  exact hfaults.2 ((Decimal.toRat_eq_zero_iff _).2 rfl)

end LetDef
