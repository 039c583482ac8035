import PluralRules.Text.Numeral

/-!
Decimal numbers of limited size.

A decimal is `coeff / 10 ^ scale`. Its coefficient is below `2 ^ 96` in
magnitude and its scale at most 28. The scale is part of the number: `1.20` and
`1.2` are two decimals of equal value.

* `Decimal.rem`: the remainder by a natural number, exact, with the scale kept.
* `Decimal.isIntegral`, `Decimal.atLeast`, `Decimal.atMost`: exact tests, by
  comparing coefficients at one scale.
* `Decimal.ofNumeral?`: the decimal that a numeral writes, or nothing if it
  does not fit with every digit written.
* `stripZeros`: a scaled number without trailing fraction zeros, of the same
  value (`stripZeros_value`) and at the least scale (`stripZeros_least`).
-/

namespace PluralRules

-- Powers are those of core, also where monoids have them.
attribute [local instance(high)] instPowNat

/-- The number `coeff / 10 ^ scale`. -/
@[ext]
structure Decimal where
  coeff : Int
  scale : Nat
  coeff_lt : coeff.natAbs < 2 ^ (96 : Nat)
  scale_le : scale ≤ 28
  deriving DecidableEq

namespace Decimal

/-- The power of ten that a decimal divides its coefficient by. -/
def unit (d : Decimal) : Nat :=
  10 ^ d.scale

theorem unit_pos (d : Decimal) : 0 < d.unit :=
  Nat.pow_pos (by decide)

/-- A natural number as a decimal without fraction digits. -/
def ofNat (x : Nat) (h : x < 2 ^ (96 : Nat)) : Decimal :=
  ⟨x, 0, by simpa using h, by decide⟩

/-- The remainder of a decimal by a natural number, which has the sign of the
decimal. -/
def rem (d : Decimal) (modulus : Nat) : Decimal where
  coeff := d.coeff.tmod (modulus * d.unit : Nat)
  scale := d.scale
  coeff_lt := by
    rw [Int.natAbs_tmod, Int.natAbs_natCast]
    exact Nat.lt_of_le_of_lt (Nat.mod_le _ _) d.coeff_lt
  scale_le := d.scale_le

/-- Whether a decimal is an integer. -/
def isIntegral (d : Decimal) : Bool :=
  d.coeff.tmod d.unit = 0

/-- Whether `x ≤ d`. -/
def atLeast (d : Decimal) (x : Nat) : Bool :=
  (x * d.unit : Nat) ≤ d.coeff

/-- Whether `d ≤ x`. -/
def atMost (d : Decimal) (x : Nat) : Bool :=
  d.coeff ≤ (x * d.unit : Nat)

/-! ### Written form -/

/-- The numeral of a decimal, with as many fraction digits as its scale says. -/
def numeral (d : Decimal) : Numeral :=
  .ofScaled (d.coeff < 0) d.coeff.natAbs d.scale

/-- The text of a decimal, with as many fraction digits as its scale says. -/
def text (d : Decimal) : String :=
  d.numeral.text

/-- The decimal that a numeral writes, if it has room for every digit. -/
def ofNumeral? (n : Numeral) : Option Decimal :=
  if h : n.digitsValue < 2 ^ (96 : Nat) ∧ n.fraction.length ≤ 28 then
    some
      { coeff := if n.negative then -n.digitsValue else n.digitsValue
        scale := n.fraction.length
        coeff_lt := by split <;> simp only [Int.natAbs_neg, Int.natAbs_natCast, h.1]
        scale_le := h.2 }
  else
    none

/-- A decimal is read back from the numeral that writes it. -/
theorem ofNumeral?_numeral (d : Decimal) : ofNumeral? d.numeral = some d := by
  have hvalue : d.numeral.digitsValue = d.coeff.natAbs :=
    Numeral.digitsValue_ofScaled ..
  have hscale : d.numeral.fraction.length = d.scale :=
    Numeral.length_fraction_ofScaled ..
  have hsign : d.numeral.negative = decide (d.coeff < 0) := rfl
  have hfits : d.numeral.digitsValue < 2 ^ (96 : Nat) ∧ d.numeral.fraction.length ≤ 28 := by
    rw [hvalue, hscale]
    exact ⟨d.coeff_lt, d.scale_le⟩
  rw [ofNumeral?, dif_pos hfits]
  simp only [Option.some.injEq, Decimal.ext_iff]
  refine ⟨?_, hscale⟩
  rw [hsign, hvalue]
  by_cases h : d.coeff < 0
  · simp only [h, decide_true, if_true]
    omega
  · simp only [h, decide_false, Bool.false_eq_true, if_false]
    omega

end Decimal

/-! ### Trailing zeros -/

/-- The coefficient and scale of `coeff / 10 ^ scale` once the zeros that end
its fraction digits are taken away. -/
def stripZeros (coeff : Nat) : Nat → Nat × Nat
  | 0 => (coeff, 0)
  | scale + 1 =>
      if coeff % 10 = 0 then stripZeros (coeff / 10) scale else (coeff, scale + 1)

theorem stripZeros_scale_le (coeff scale : Nat) :
    (stripZeros coeff scale).2 ≤ scale := by
  induction scale generalizing coeff with
  | zero => simp [stripZeros]
  | succ scale ih =>
      rw [stripZeros]
      split
      · exact Nat.le_succ_of_le (ih _)
      · exact Nat.le_refl _

/-- Taking zeros away keeps the value. -/
theorem stripZeros_value (coeff scale : Nat) :
    coeff = (stripZeros coeff scale).1 * 10 ^ (scale - (stripZeros coeff scale).2) := by
  induction scale generalizing coeff with
  | zero => simp [stripZeros]
  | succ scale ih =>
      rw [stripZeros]
      split
      · have h := ih (coeff / 10)
        have hs := stripZeros_scale_le (coeff / 10) scale
        rw [Nat.succ_sub hs, Nat.pow_succ, ← Nat.mul_assoc, ← h]
        omega
      · simp

/-- Once zeros are taken away, no fraction digit is left or the last one is not
zero. -/
theorem stripZeros_least (coeff scale : Nat) :
    (stripZeros coeff scale).2 = 0 ∨ (stripZeros coeff scale).1 % 10 ≠ 0 := by
  induction scale generalizing coeff with
  | zero => simp [stripZeros]
  | succ scale ih =>
      rw [stripZeros]
      split
      · exact ih _
      · rename_i h
        exact .inr h

end PluralRules
