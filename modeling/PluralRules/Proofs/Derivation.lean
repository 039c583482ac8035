import Mathlib.Logic.Relation
import Mathlib.Order.Bounds.Defs
import PluralRules.Proofs.TrailingZeros

/-!
From a decimal to its operands.

The operands solve the equations that define them, and what is computed on the way to them has room
in machine words. The zeros that end the fraction digits are taken away one at a time. Here this is
a relation between pairs of integers, the digits that are left and their count, neither of which has
a bound: that both stay in range is proved of every pair that is reached.

* `ZeroTaken`: one zero is taken away. What stays the same is `LeftOf`.
* `reflTransGen_stripZeros`: `stripZeros` is where taking zeros away ends.
* `Operands.Equations`: what the operands of a decimal have to be.
* `Operands.ComputedInRange`: the bounds of all that is computed.
* `Operands.ofDecimal_derived`: the operands of every decimal have both properties.
-/

namespace PluralRules

/-! ### Taking zeros away -/

/-- The last one of some fraction digits is a zero and is taken away. A pair is the digits, as an
integer, and their count. -/
inductive ZeroTaken : Int × Int → Int × Int → Prop
  | step {digits count : Int} :
      0 < count → digits.tmod 10 = 0 → ZeroTaken (digits, count) (digits.tdiv 10, count - 1)

/-- What is left of `scale` fraction digits by taking zeros away. -/
structure LeftOf (coeff scale : Nat) (s : Int × Int) : Prop where
  digits_nonneg : 0 ≤ s.1
  count_nonneg : 0 ≤ s.2
  count_le : s.2 ≤ scale
  /-- The zeros put back are the digits that were there. -/
  restored : s.1 * 10 ^ (scale - s.2).toNat = coeff

namespace LeftOf

variable {coeff scale : Nat} {s s' : Int × Int}

lemma refl (coeff scale : Nat) : LeftOf coeff scale (coeff, scale) where
  digits_nonneg := Int.natCast_nonneg coeff
  count_nonneg := Int.natCast_nonneg scale
  count_le := le_rfl
  restored := by simp

/-- One zero more can be taken away. -/
lemma step (h : LeftOf coeff scale s) (hs : ZeroTaken s s') : LeftOf coeff scale s' := by
  cases hs with
  | @step digits count hcount hlast =>
      have hdigits : digits.tdiv 10 * 10 = digits := Int.tdiv_mul_cancel_of_tmod_eq_zero hlast
      have hzeros : (scale - (count - 1)).toNat = (scale - count).toNat + 1 := by
        have hle := h.count_le
        dsimp only at hle
        omega
      exact
        { digits_nonneg := Int.tdiv_nonneg h.digits_nonneg (by decide)
          count_nonneg := Int.sub_nonneg_of_le hcount
          count_le := (Int.sub_le_self count (by decide)).trans h.count_le
          restored := by
            rw [hzeros, pow_succ', ← mul_assoc, hdigits]
            exact h.restored }

/-- So can any number of zeros. -/
lemma of_reflTransGen (h : Relation.ReflTransGen ZeroTaken (coeff, scale) s) :
    LeftOf coeff scale s := by
  induction h with
  | refl => exact refl coeff scale
  | tail _ hs ih => exact ih.step hs

lemma digits_le (h : LeftOf coeff scale s) : s.1 ≤ coeff := by
  rw [← h.restored]
  exact le_mul_of_one_le_right h.digits_nonneg (one_le_pow₀ (by decide))

end LeftOf

/-- Zeros are taken away one at a time until `stripZeros` is reached. -/
lemma reflTransGen_stripZeros (coeff scale : Nat) :
    Relation.ReflTransGen ZeroTaken (coeff, scale)
      ((stripZeros coeff scale).1, (stripZeros coeff scale).2) := by
  induction scale generalizing coeff with
  | zero => exact .refl
  | succ scale ih =>
      by_cases hlast : coeff % 10 = 0
      · have htaken : ZeroTaken (coeff, (scale + 1 : Nat)) ((coeff / 10 : Nat), scale) := by
          have hzero : (coeff : Int).tmod 10 = 0 := by
            rw [Int.tmod_eq_emod_of_nonneg (Int.natCast_nonneg _)]
            exact_mod_cast hlast
          have hstep := ZeroTaken.step (Int.natCast_pos.2 scale.succ_pos) hzero
          rw [Int.natCast_succ, add_sub_cancel_right] at hstep
          exact hstep
        rw [stripZeros, if_pos hlast]
        exact .head htaken (ih (coeff / 10))
      · rw [stripZeros, if_neg hlast]

/-- No zero can be taken away from what `stripZeros` leaves. -/
lemma not_zeroTaken_stripZeros (coeff scale : Nat) (s : Int × Int) :
    ¬ ZeroTaken ((stripZeros coeff scale).1, (stripZeros coeff scale).2) s := by
  rintro ⟨hcount, hlast⟩
  have hzero : (stripZeros coeff scale).1 % 10 = 0 := by
    rw [Int.tmod_eq_emod_of_nonneg (Int.natCast_nonneg _)] at hlast
    exact_mod_cast hlast
  exact (stripZeros_least coeff scale).elim (Int.natCast_pos.1 hcount).ne' (absurd hzero)

namespace Operands

/-! ### The equations of the operands -/

/-- The operands are those that a decimal should have. -/
structure Equations (o : Operands) (d : Decimal) : Prop where
  n_coeff : o.n.coeff = |d.coeff|
  n_scale : o.n.scale = d.scale
  n_value : o.n.value = |d.value|
  v_eq : o.v = d.scale
  /-- The number is its integer digits and its fraction digits. -/
  n_eq : o.n.value = o.i + o.f / 10 ^ o.v
  f_lt_pow : o.f < 10 ^ o.v
  w_le : o.w ≤ o.v
  /-- The fraction digits are those that count, and zeros. -/
  f_eq : o.f = o.t * 10 ^ (o.v - o.w)
  /-- There is no fraction, or the digits that count do not end in zero. -/
  last : o.w = 0 ∧ o.t = 0 ∨ ¬ 10 ∣ o.t
  /-- No fewer fraction digits write the number. -/
  w_least : IsLeast {k : Nat | ∃ x : Int, |d.value| * 10 ^ k = x} o.w
  /-- What is looked up are these operands, all but `n` as integers. -/
  looked_up : o.get .n = o.n ∧ (o.get .i).value = o.i ∧ (o.get .v).value = o.v ∧
    (o.get .w).value = o.w ∧ (o.get .f).value = o.f ∧ (o.get .t).value = o.t
  integral : ∀ operand, operand ≠ .n → (o.get operand).scale = 0
  nonneg : ∀ operand, 0 ≤ (o.get operand).value

variable (o : Operands) (d : Decimal)

/-- Without fraction digits that count, there is no fraction. -/
lemma w_eq_zero_and_t_eq_zero_or_not_dvd_t : o.w = 0 ∧ o.t = 0 ∨ ¬ 10 ∣ o.t := by
  rcases Nat.eq_zero_or_pos o.w with hw | hw
  · refine .inl ⟨hw, ?_⟩
    have hf : o.t * 10 ^ o.v < 1 * 10 ^ o.v := by
      have hlt : o.f < 10 ^ o.v := Nat.mod_lt _ (by positivity)
      rw [← o.t_mul_eq_f, hw] at hlt
      simpa using hlt
    exact Nat.lt_one_iff.1 (lt_of_mul_lt_mul_right hf (Nat.zero_le _))
  · exact .inr (o.not_dvd_t hw)

/-- `w` is the least number of fraction digits that the magnitude can be written with. -/
lemma isLeast_w : IsLeast {k : Nat | ∃ x : Int, o.magnitude * 10 ^ k = x} o.w := by
  have hiff : ∀ k, (∃ x : Int, o.magnitude * 10 ^ k = x) ↔ o.w ≤ k := by
    intro k
    rw [w_le_iff, Int.fract_eq_zero_iff, Set.mem_range]
    exact exists_congr fun x => eq_comm
  exact ⟨(hiff o.w).2 le_rfl, fun k hk => (hiff k).1 hk⟩

/-- The operands of a decimal solve their equations. -/
lemma equations_ofDecimal : (ofDecimal d).Equations d where
  n_coeff := d.coeff.natCast_natAbs
  n_scale := rfl
  n_value := (value_get _ .n).trans (magnitude_ofDecimal d)
  v_eq := rfl
  n_eq := n_value _
  f_lt_pow := Nat.mod_lt _ (by positivity)
  w_le := w_le_v _
  f_eq := (t_mul_eq_f _).symm
  last := w_eq_zero_and_t_eq_zero_or_not_dvd_t _
  w_least := by
    rw [← magnitude_ofDecimal]
    exact isLeast_w _
  looked_up := by
    refine ⟨rfl, ?_, ?_, ?_, ?_, ?_⟩ <;> rw [get, Decimal.value_ofNat]
  integral := by
    intro operand hn
    cases operand with
    | n => exact absurd rfl hn
    | i | v | w | f | t => rfl
  nonneg := by
    intro operand
    rw [value_get]
    exact value_nonneg _ operand

/-! ### The room that is needed -/

/-- What is computed on the way to the operands of a decimal is in range: words of 128 bits with a
sign for the digits, and 96 bits for what is kept of them. -/
structure ComputedInRange (o : Operands) (d : Decimal) : Prop where
  coeff_lt : |d.coeff| < 2 ^ 127
  unit_lt : (10 : Int) ^ d.scale < 2 ^ 127
  /-- The fraction digits are a remainder of the coefficient. -/
  f_eq_tmod : o.f = |d.coeff|.tmod (10 ^ d.scale)
  f_lt : o.f < 2 ^ 96
  /-- Zeros are taken away from the fraction digits as long as there are any. -/
  taken : Relation.ReflTransGen ZeroTaken (o.f, d.scale) (o.t, o.w)
  none_left : ∀ s, ¬ ZeroTaken (o.t, o.w) s
  /-- All the while, the digits and their count are not negative, and have room. -/
  in_range : ∀ s, Relation.ReflTransGen ZeroTaken (o.f, d.scale) s →
    (0 ≤ s.1 ∧ s.1 < 2 ^ 96) ∧ (0 ≤ s.2 ∧ s.2 ≤ 28)
  t_lt : o.t < 2 ^ 96

lemma computedInRange_ofDecimal : (ofDecimal d).ComputedInRange d where
  coeff_lt := by
    have hlt : |d.coeff| < 2 ^ 96 := by
      rw [Int.abs_eq_natAbs]
      exact_mod_cast d.coeff_lt
    exact hlt.trans (by decide)
  unit_lt := by
    calc (10 : Int) ^ d.scale ≤ 10 ^ 28 := pow_le_pow_right₀ (by decide) d.scale_le
      _ < 2 ^ 127 := by decide
  f_eq_tmod := by
    rw [Int.abs_eq_natAbs]
    exact_mod_cast Int.ofNat_tmod d.coeff.natAbs (10 ^ d.scale)
  f_lt := f_lt _
  taken := reflTransGen_stripZeros _ _
  none_left := not_zeroTaken_stripZeros _ _
  in_range := by
    intro s hs
    have hleft := LeftOf.of_reflTransGen hs
    have hf : (f (ofDecimal d) : Int) < 2 ^ 96 := by exact_mod_cast f_lt (ofDecimal d)
    refine ⟨⟨hleft.digits_nonneg, hleft.digits_le.trans_lt hf⟩, hleft.count_nonneg, ?_⟩
    exact hleft.count_le.trans (by exact_mod_cast d.scale_le)
  t_lt := (t_le_f _).trans_lt (f_lt _)

/-- **The operands of a decimal solve their equations**, for every coefficient, scale and sign, and
nothing that is computed on the way leaves its range: not the coefficient and the power of ten, not
the fraction digits while zeros are taken away from them, and not the count of those digits. -/
theorem ofDecimal_derived : (ofDecimal d).Equations d ∧ (ofDecimal d).ComputedInRange d :=
  ⟨equations_ofDecimal d, computedInRange_ofDecimal d⟩

example : ((ofDecimal ⟨-12300, 4, by decide, by decide⟩).w,
    (ofDecimal ⟨-12300, 4, by decide, by decide⟩).t) = (2, 23) := by
  decide

end Operands

end PluralRules
