import LetDef.Number.Decimal
import Mathlib.Algebra.Order.Field.Rat
import Mathlib.Data.Nat.Digits.Lemmas
import Mathlib.Tactic.FieldSimp
import Mathlib.Tactic.Linarith

/-!
# Decimals as rational numbers

The number that a decimal stands for. Its sign and its coefficient give that number as a multiple of
a power of ten, the unit of the decimal, and the sign alone tells whether it is below zero.
-/

namespace LetDef

namespace Number

lemma cast_powerOfTen (n : Nat) : (powerOfTen n : ℚ) = 10 ^ n := by
  unfold powerOfTen
  exact_mod_cast Nat.pow_eq

end Number

namespace Decimal

variable (d : Decimal)

/-- The sign of a decimal as a factor. -/
def sign : ℤ :=
  if d.negative then -1 else 1

lemma signed_eq : d.signed = d.sign * d.coefficient := by
  unfold signed sign
  split <;> simp

lemma unit_pos : 0 < d.unit :=
  zpow_pos (by norm_num) _

lemma toRat_eq : d.toRat = d.sign * (d.coefficient * d.unit) := by
  unfold toRat
  rw [signed_eq]
  push_cast
  ring

lemma sign_ne_zero : d.sign ≠ 0 := by
  unfold sign
  split <;> decide

lemma toRat_eq_zero_iff : d.toRat = 0 ↔ d.coefficient = 0 := by
  have hsign : (d.sign : ℚ) ≠ 0 := Int.cast_ne_zero.2 d.sign_ne_zero
  rw [toRat_eq, mul_eq_zero, mul_eq_zero]
  simp [hsign, d.unit_pos.ne']

lemma isZero_iff : d.isZero = true ↔ d.toRat = 0 := by
  rw [toRat_eq_zero_iff]
  exact beq_iff_eq

end Decimal

end LetDef
