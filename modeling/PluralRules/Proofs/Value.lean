import Mathlib.Data.Rat.Floor
import Mathlib.Tactic
import PluralRules.Operands

/-!
The exact values of decimals and operands.

* `Decimal.value`: a decimal as a rational number. The tests and the remainder of decimals
  are those of rational numbers: `atLeast_iff`, `atMost_iff`, `isIntegral_iff`, `value_rem`.
* `Decimal.fract_value_rem`: a remainder has the fraction of the decimal that it is left of.
* `Operands.value`: what each operand of a number is, said of its exact magnitude. The
  operands that are looked up are these (`value_get`).
* `Operands.magnitude_ofDecimal`: for a decimal, the magnitude is its absolute value.
-/

namespace PluralRules

/-! ### Decimals -/

namespace Decimal

/-- The number that a decimal stands for. -/
def value (d : Decimal) : ℚ :=
  d.coeff / d.unit

variable {d : Decimal}

lemma unit_cast_pos (d : Decimal) : 0 < (d.unit : ℚ) :=
  Nat.cast_pos.2 d.unit_pos

lemma value_ofNat (x : Nat) (h : x < 2 ^ (96 : Nat)) : (ofNat x h).value = x := by
  simp [value, ofNat, unit]

lemma atLeast_iff (d : Decimal) (x : Nat) : d.atLeast x = true ↔ (x : ℚ) ≤ d.value := by
  rw [atLeast, decide_eq_true_iff, value, le_div_iff₀ d.unit_cast_pos]
  norm_cast

lemma atMost_iff (d : Decimal) (x : Nat) : d.atMost x = true ↔ d.value ≤ x := by
  rw [atMost, decide_eq_true_iff, value, div_le_iff₀ d.unit_cast_pos]
  norm_cast

/-- A decimal is an integer if and only if its value has no fraction. -/
lemma isIntegral_iff (d : Decimal) : d.isIntegral = true ↔ Int.fract d.value = 0 := by
  have hunit : (d.unit : ℚ) ≠ 0 := d.unit_cast_pos.ne'
  rw [isIntegral, decide_eq_true_iff, ← Int.dvd_iff_tmod_eq_zero, Int.fract_eq_zero_iff,
    Set.mem_range]
  constructor
  · rintro ⟨k, hk⟩
    exact ⟨k, by rw [value, hk, Int.cast_mul, Int.cast_natCast, mul_div_cancel_left₀ _ hunit]⟩
  · rintro ⟨k, hk⟩
    refine ⟨k, ?_⟩
    rw [value, eq_div_iff hunit] at hk
    rw [mul_comm]
    exact_mod_cast hk.symm

/-- The remainder of a decimal that is not negative takes away as many moduli as are whole in
it. -/
theorem value_rem (h : 0 ≤ d.coeff) (modulus : Nat) :
    (d.rem modulus).value = d.value - modulus * ⌊d.value / modulus⌋ := by
  have hunit : (d.unit : ℚ) ≠ 0 := d.unit_cast_pos.ne'
  have hfloor : ⌊d.value / modulus⌋ = d.coeff / ((modulus * d.unit : Nat) : Int) := by
    rw [value, div_div, ← Nat.cast_mul, mul_comm d.unit, Rat.floor_intCast_div_natCast]
  have hrem : d.coeff.tmod (modulus * d.unit : Nat)
      = d.coeff - (modulus * d.unit : Nat) * ⌊d.value / modulus⌋ := by
    rw [Int.tmod_eq_emod_of_nonneg h, Int.emod_def, hfloor]
  calc (d.rem modulus).value
      = (d.coeff - (modulus * d.unit : Nat) * ⌊d.value / modulus⌋ : Int) / d.unit := by
        rw [← hrem]
        rfl
    _ = d.coeff / d.unit - modulus * ⌊d.value / modulus⌋ := by
        push_cast
        field_simp
    _ = d.value - modulus * ⌊d.value / modulus⌋ := rfl

/-- Taking away whole moduli leaves the fraction as it is. -/
lemma fract_value_rem (h : 0 ≤ d.coeff) (modulus : Nat) :
    Int.fract (d.rem modulus).value = Int.fract d.value := by
  rw [value_rem h, ← Int.cast_natCast, ← Int.cast_mul, Int.fract_sub_intCast]

end Decimal

/-! ### Operands -/

namespace Operands

/-- The number whose operands these are, without a sign. -/
def magnitude (o : Operands) : ℚ :=
  o.digits / 10 ^ o.v

/-- What each operand of a number is. The counts of fraction digits are those of the text of
the number; the other operands are parts of its magnitude. -/
def value (o : Operands) : Operand → ℚ
  | .n => o.magnitude
  | .i => ⌊o.magnitude⌋
  | .v => o.v
  | .w => o.w
  | .f => Int.fract o.magnitude * 10 ^ o.v
  | .t => Int.fract o.magnitude * 10 ^ o.w

/-- The operands of a decimal are those of its absolute value. -/
lemma magnitude_ofDecimal (d : Decimal) : (ofDecimal d).magnitude = |d.value| := by
  have hunit : |(d.unit : ℚ)| = 10 ^ d.scale := by
    rw [abs_of_pos d.unit_cast_pos, Decimal.unit]
    push_cast
    rfl
  rw [Decimal.value, abs_div, hunit, magnitude, ofDecimal, Nat.cast_natAbs, Int.cast_abs]

variable (o : Operands)

lemma floor_magnitude : ⌊o.magnitude⌋ = o.i := by
  have h : o.magnitude = (o.digits : ℚ) / (10 ^ o.v : Nat) := by
    rw [magnitude]
    push_cast
    rfl
  rw [h, Rat.floor_natCast_div_natCast]
  rfl

lemma fract_magnitude_mul : Int.fract o.magnitude * 10 ^ o.v = o.f := by
  have hpow : (10 ^ o.v : ℚ) ≠ 0 := by positivity
  have hdigits : (o.digits : ℚ) = o.i * 10 ^ o.v + o.f := by
    exact_mod_cast o.i_mul_add_f.symm
  calc Int.fract o.magnitude * 10 ^ o.v
      = (o.digits / 10 ^ o.v - o.i) * 10 ^ o.v := by
        rw [Int.fract, floor_magnitude, Int.cast_natCast, magnitude]
    _ = o.digits - o.i * 10 ^ o.v := by rw [sub_mul, div_mul_cancel₀ _ hpow]
    _ = o.f := by rw [hdigits, add_sub_cancel_left]

lemma fract_magnitude_mul_stripped : Int.fract o.magnitude * 10 ^ o.w = o.t := by
  have hpow : (10 ^ (o.v - o.w) : ℚ) ≠ 0 := by positivity
  refine mul_right_cancel₀ hpow ?_
  calc Int.fract o.magnitude * 10 ^ o.w * 10 ^ (o.v - o.w)
      = Int.fract o.magnitude * 10 ^ o.v := by
        rw [mul_assoc, ← pow_add, Nat.add_sub_cancel' o.w_le_v]
    _ = o.f := o.fract_magnitude_mul
    _ = o.t * 10 ^ (o.v - o.w) := by exact_mod_cast o.t_mul_eq_f.symm

/-- The operands that are looked up have the values that operands should have. -/
theorem value_get (operand : Operand) : (o.get operand).value = o.value operand := by
  cases operand with
  | n => simp [get, n, Decimal.value, Decimal.unit, value, magnitude]
  | i => rw [get, Decimal.value_ofNat, value, floor_magnitude, Int.cast_natCast]
  | v => rw [get, Decimal.value_ofNat, value]
  | w => rw [get, Decimal.value_ofNat, value]
  | f => rw [get, Decimal.value_ofNat, value, fract_magnitude_mul]
  | t => rw [get, Decimal.value_ofNat, value, fract_magnitude_mul_stripped]

/-- No operand is negative. -/
lemma coeff_get_nonneg (operand : Operand) : 0 ≤ (o.get operand).coeff := by
  cases operand <;> exact Int.natCast_nonneg _

lemma value_nonneg (operand : Operand) : 0 ≤ o.value operand := by
  have hcoeff : (0 : ℚ) ≤ (o.get operand).coeff := Int.cast_nonneg (o.coeff_get_nonneg operand)
  rw [← o.value_get, Decimal.value]
  positivity

lemma n_nonneg : 0 ≤ o.n.value := by
  have hvalue := o.value_nonneg .n
  rwa [← value_get] at hvalue

/-- Among the operands only `n` can have a fraction. -/
lemma fract_value {operand : Operand} (h : operand ≠ .n) : Int.fract (o.value operand) = 0 := by
  rw [← o.value_get]
  cases operand with
  | n => exact absurd rfl h
  | i | v | w | f | t => rw [get, Decimal.value_ofNat, Int.fract_natCast]

end Operands

end PluralRules
