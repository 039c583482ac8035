import PluralRules.Decimal
import PluralRules.Operand

/-!
The operands of a number.

The magnitude of a number is kept as its digits, whole and fraction together,
with the count of fraction digits. Two numbers have equal operands exactly when
these two agree; a sign makes no difference, a trailing zero does.

* `Operands.ofDecimal`, `Operands.ofNat`: the operands of a number.
* `Operands.i`, `f`, `w`, `t`, `n` and `Operands.get`: each operand.
* `Operands.text`: the number as a rule sees it, with its fraction digits.
* `i_mul_add_f`, `t_mul_eq_f`: the digits put together again.
-/

namespace PluralRules

-- Powers are those of core, also where monoids have them.
attribute [local instance(high)] instPowNat

/-- The digits of a number that rules look at. -/
@[ext]
structure Operands where
  /-- All digits as one integer. -/
  digits : Nat
  /-- The number of fraction digits, trailing zeros counted. -/
  v : Nat
  digits_lt : digits < 2 ^ (96 : Nat)
  v_le : v ≤ 28

namespace Operands

instance : DecidableEq Operands := fun _ _ =>
  decidable_of_iff _ Operands.ext_iff.symm

/-- The operands of a decimal, whose scale counts its fraction digits. -/
def ofDecimal (d : Decimal) : Operands :=
  ⟨d.coeff.natAbs, d.scale, d.coeff_lt, d.scale_le⟩

/-- The operands of an integer. -/
def ofNat (x : Nat) (h : x < 2 ^ (96 : Nat)) : Operands :=
  ⟨x, 0, h, (Decimal.ofNat x h).scale_le⟩

/-- The integer digits. -/
def i (o : Operands) : Nat :=
  o.digits / 10 ^ o.v

/-- The fraction digits as an integer. -/
def f (o : Operands) : Nat :=
  o.digits % 10 ^ o.v

/-- The number of fraction digits without trailing zeros. -/
def w (o : Operands) : Nat :=
  (stripZeros o.f o.v).2

/-- The fraction digits without trailing zeros, as an integer. -/
def t (o : Operands) : Nat :=
  (stripZeros o.f o.v).1

/-- The absolute value, with all its fraction digits. -/
def n (o : Operands) : Decimal :=
  ⟨o.digits, o.v, o.digits_lt, o.v_le⟩

/-! ### Sizes -/

theorem i_lt (o : Operands) : o.i < 2 ^ (96 : Nat) :=
  Nat.lt_of_le_of_lt (Nat.div_le_self _ _) o.digits_lt

theorem f_lt (o : Operands) : o.f < 2 ^ (96 : Nat) :=
  Nat.lt_of_le_of_lt (Nat.mod_le _ _) o.digits_lt

theorem w_le_v (o : Operands) : o.w ≤ o.v :=
  stripZeros_scale_le _ _

/-- The fraction digits are those without trailing zeros, and the zeros. -/
theorem t_mul_eq_f (o : Operands) : o.t * 10 ^ (o.v - o.w) = o.f :=
  (stripZeros_value o.f o.v).symm

theorem t_le_f (o : Operands) : o.t ≤ o.f := by
  rw [← t_mul_eq_f]
  exact Nat.le_mul_of_pos_right _ (Nat.pow_pos (by decide))

/-- The digits are the integer digits followed by the fraction digits. -/
theorem i_mul_add_f (o : Operands) : o.i * 10 ^ o.v + o.f = o.digits :=
  Nat.div_add_mod' o.digits (10 ^ o.v)

/-! ### Looking an operand up -/

/-- The value of an operand. All but `n` are integers. -/
def get (o : Operands) : Operand → Decimal
  | .n => o.n
  | .i => .ofNat o.i o.i_lt
  | .v => .ofNat o.v (Nat.lt_of_le_of_lt o.v_le (by decide))
  | .w => .ofNat o.w (Nat.lt_of_le_of_lt (Nat.le_trans o.w_le_v o.v_le) (by decide))
  | .f => .ofNat o.f o.f_lt
  | .t => .ofNat o.t (Nat.lt_of_le_of_lt o.t_le_f o.f_lt)

/-- The number with its visible fraction digits, without a sign. -/
def text (o : Operands) : String :=
  o.n.text

end Operands

end PluralRules
