import PluralRules.Proofs.Meaning
import PluralRules.Proofs.NumberForms

/-!
What trailing zeros can be seen by.

Zeros at the end of the fraction digits do not change the magnitude of a number. Of its operands
only `v` and `f` see them; the other four are known from the magnitude, and so is the verdict of a
condition that asks for no others.

* `Operands.w_le_iff`: `w` is the least scale at which the magnitude is an integer.
* `Operands.value_eq_of_magnitude_eq`: the operands that the magnitude decides.
* `Relation.means_congr`: a relation looks at its operand alone.
* `Number.absValue?`: the absolute value of a number in any form. A float counts with a value that
  is given for it: the binary number that it is (`Binary.Magnitude.exactValue`), or the shortest
  decimal that is written for it (`Binary.Magnitude.writtenValue`).
* `Predicate.evaluate_eq_of_absValue_eq`: numbers of equal absolute value get one verdict, floats
  counting as they are written. As binary numbers they do not
  (`Predicate.evaluate_ne_of_exactValue_eq`).
-/

namespace PluralRules

/-! ### Operands of one magnitude -/

namespace Operands

variable (o : Operands)

/-- At the scale `w`, the magnitude is the integer digits followed by the digits that count. -/
lemma magnitude_mul_pow_w : o.magnitude * 10 ^ o.w = (o.i * 10 ^ o.w + o.t : Nat) := by
  have hsplit : o.magnitude = o.i + Int.fract o.magnitude := by
    rw [← Int.floor_add_fract o.magnitude, o.floor_magnitude, Int.cast_natCast]
    simp
  calc o.magnitude * 10 ^ o.w = o.i * 10 ^ o.w + Int.fract o.magnitude * 10 ^ o.w := by
        rw [← add_mul, ← hsplit]
    _ = o.i * 10 ^ o.w + o.t := by rw [o.fract_magnitude_mul_stripped]
    _ = (o.i * 10 ^ o.w + o.t : Nat) := by push_cast; rfl

/-- The digits that count do not end in zero. -/
lemma not_dvd_t (h : 0 < o.w) : ¬ 10 ∣ o.t := by
  have hleast : o.w = 0 ∨ o.t % 10 ≠ 0 := stripZeros_least o.f o.v
  rw [Nat.dvd_iff_mod_eq_zero]
  exact hleast.resolve_left h.ne'

/-- The least scale at which the magnitude is an integer is `w`. -/
theorem w_le_iff (k : Nat) : o.w ≤ k ↔ Int.fract (o.magnitude * 10 ^ k) = 0 := by
  rw [Int.fract_eq_zero_iff, Set.mem_range]
  constructor
  · intro hle
    refine ⟨((o.i * 10 ^ o.w + o.t) * 10 ^ (k - o.w) : Nat), ?_⟩
    calc (((o.i * 10 ^ o.w + o.t) * 10 ^ (k - o.w) : Nat) : ℚ)
        = o.magnitude * 10 ^ o.w * 10 ^ (k - o.w) := by
          rw [o.magnitude_mul_pow_w]
          push_cast
          rfl
      _ = o.magnitude * 10 ^ k := by rw [mul_assoc, ← pow_add, Nat.add_sub_cancel' hle]
  · rintro ⟨z, hz⟩
    by_contra hlt
    rw [Nat.not_le] at hlt
    have hscaled : z * 10 ^ (o.w - k) = ((o.i * 10 ^ o.w + o.t : Nat) : Int) := by
      have hcast : (z : ℚ) * 10 ^ (o.w - k) = (o.i * 10 ^ o.w + o.t : Nat) := by
        rw [hz, mul_assoc, ← pow_add, Nat.add_sub_cancel' hlt.le, o.magnitude_mul_pow_w]
      exact_mod_cast hcast
    -- Both sides but `t` are multiples of ten.
    have hleft : (10 : Int) ∣ z * 10 ^ (o.w - k) :=
      (dvd_pow_self 10 (Nat.sub_pos_of_lt hlt).ne').mul_left z
    have hright : 10 ∣ o.i * 10 ^ o.w := (dvd_pow_self 10 (by omega)).mul_left o.i
    rw [hscaled] at hleft
    have hsum : 10 ∣ o.i * 10 ^ o.w + o.t := by exact_mod_cast hleft
    exact o.not_dvd_t (by omega) ((Nat.dvd_add_right hright).1 hsum)

variable {o} {p : Operands}

lemma w_eq_of_magnitude_eq (h : o.magnitude = p.magnitude) : o.w = p.w := by
  refine le_antisymm ?_ ?_
  · rw [w_le_iff, h, ← w_le_iff]
  · rw [w_le_iff, ← h, ← w_le_iff]

/-- Without `v` and `f`, the operands are known from the magnitude. -/
theorem value_eq_of_magnitude_eq (h : o.magnitude = p.magnitude) {operand : Operand}
    (hv : operand ≠ .v) (hf : operand ≠ .f) : o.value operand = p.value operand := by
  cases operand with
  | n => exact h
  | i => rw [value, value, h]
  | v => exact absurd rfl hv
  | w => rw [value, value, w_eq_of_magnitude_eq h]
  | f => exact absurd rfl hf
  | t => rw [value, value, h, w_eq_of_magnitude_eq h]

end Operands

/-! ### Verdicts on one magnitude -/

/-- A relation looks at no operand but its own. -/
lemma Relation.means_congr {o p : Operands} {r : Relation}
    (h : o.value r.expr.operand = p.value r.expr.operand) : r.Means o ↔ r.Means p := by
  have hvalue : r.expr.value o = r.expr.value p := by rw [Expr.value, Expr.value, h]
  have hhits : r.Hits o ↔ r.Hits p := by
    constructor
    · rintro ⟨hrange, hinteger⟩
      exact ⟨hvalue ▸ hrange, h ▸ hinteger⟩
    · rintro ⟨hrange, hinteger⟩
      exact ⟨hvalue ▸ hrange, h ▸ hinteger⟩
  rw [Relation.Means, Relation.Means, hhits]

/-- A condition that asks for neither `v` nor `f` has one verdict on all operands of one
magnitude. -/
theorem Predicate.accepts_eq_of_magnitude_eq {c : Condition} {o p : Operands}
    (hc : ∀ r ∈ c.atoms, r.expr.operand ≠ .v ∧ r.expr.operand ≠ .f)
    (h : o.magnitude = p.magnitude) : (ofCondition c).accepts o = (ofCondition c).accepts p := by
  rw [ofCondition_accepts, ofCondition_accepts]
  refine Formula.holds_congr fun r hr => ?_
  have hvalue := Operands.value_eq_of_magnitude_eq h (hc r hr).1 (hc r hr).2
  rw [Bool.eq_iff_iff, Test.holds_ofRelation_iff, Test.holds_ofRelation_iff]
  exact Relation.means_congr hvalue

/-! ### Absolute values of numbers -/

/-- The number that a numeral writes, without its sign. -/
def Numeral.absValue (x : Numeral) : ℚ :=
  x.digitsValue / 10 ^ x.fraction.length

namespace Binary

/-- The binary number that a finite float is, without its sign. -/
def Magnitude.exactValue (m : Magnitude) : ℚ :=
  m.significand * 2 ^ m.exponent

/-- The decimal number that is written for a finite float, without its sign. -/
def Magnitude.writtenValue (m : Magnitude) : ℚ :=
  (m.numeral false).absValue

/-- The absolute value of a float, given that of a finite one. -/
def Value.absValue? (finiteValue : Magnitude → ℚ) : Value → Option ℚ
  | finite _ m => some (finiteValue m)
  | infinite _ | notANumber => none

/-- A sign changes neither the digits nor the scale of what is written. -/
lemma Magnitude.absValue_numeral (negative : Bool) (m : Magnitude) :
    (m.numeral negative).absValue = m.writtenValue := by
  rw [writtenValue, numeral, numeral]
  split
  · rfl
  · rfl

end Binary

namespace Number

/-- The absolute value of a number, if it has one. How much a finite float counts is given. -/
def absValue? (finiteValue : Binary.Magnitude → ℚ) : Number → Option ℚ
  | text s => (Numeral.ofChars? (Text.trim s.toList)).map Numeral.absValue
  | integer x _ _ => some |(x : ℚ)|
  | decimal d => some |d.value|
  | binary64 bits => (Binary.Format.binary64.decode bits.toNat).absValue? finiteValue
  | binary32 bits => (Binary.Format.binary32.decode bits.toNat).absValue? finiteValue

end Number

namespace Operands

variable {o : Operands}

/-- The magnitude of what a numeral is read as is the number that it writes. -/
lemma magnitude_of_ofNumeral {x : Numeral} (h : Operands.ofNumeral x = .ok o) :
    x.absValue = o.magnitude := by
  obtain ⟨hdigits, hv⟩ := ofNumeral_eq_ok_iff.1 h
  rw [Numeral.absValue, hdigits, hv, magnitude]

lemma magnitude_of_ofText {s : String} (h : Operands.ofText s = .ok o) :
    (Numeral.ofChars? (Text.trim s.toList)).map Numeral.absValue = some o.magnitude := by
  rw [ofText] at h
  cases hread : Numeral.ofChars? (Text.trim s.toList) with
  | none => simp [hread] at h
  | some x =>
      rw [hread] at h
      rw [Option.map_some, magnitude_of_ofNumeral h]

lemma magnitude_of_ofBinary {x : Binary.Value} (h : Operands.ofBinary x = .ok o) :
    x.absValue? Binary.Magnitude.writtenValue = some o.magnitude := by
  cases x with
  | finite negative m =>
      rw [Binary.Value.absValue?, ← m.absValue_numeral negative, magnitude_of_ofNumeral h]
  | infinite negative => exact nomatch h
  | notANumber => exact nomatch h

end Operands

/-- The magnitude of the operands of a number is its absolute value, a float counting as it is
written. -/
theorem Number.absValue?_eq_magnitude {x : Number} {o : Operands} (h : x.operands = .ok o) :
    x.absValue? Binary.Magnitude.writtenValue = some o.magnitude := by
  cases x with
  | text s => exact Operands.magnitude_of_ofText h
  | integer x lower upper =>
      obtain rfl := Except.ok.inj h
      simp [absValue?, Operands.magnitude, Operands.ofNat, Nat.cast_natAbs]
  | decimal d =>
      obtain rfl := Except.ok.inj h
      rw [absValue?, Operands.magnitude_ofDecimal]
  | binary64 bits => exact Operands.magnitude_of_ofBinary h
  | binary32 bits => exact Operands.magnitude_of_ofBinary h

namespace Predicate

/-- **Trailing zeros are seen by `v` and `f` alone**: a condition that asks for neither gives one
verdict on two numbers of equal absolute value that have operands, whatever their signs, forms and
trailing zeros. A float counts as the decimal that is written for it. -/
theorem evaluate_eq_of_absValue_eq {c : Condition} {x y : Number} {o p : Operands}
    (hc : ∀ r ∈ c.atoms, r.expr.operand ≠ .v ∧ r.expr.operand ≠ .f) (hx : x.operands = .ok o)
    (hy : y.operands = .ok p) (h : x.absValue? Binary.Magnitude.writtenValue =
      y.absValue? Binary.Magnitude.writtenValue) :
    ∃ verdict, (ofCondition c).evaluate x = .ok verdict ∧
      (ofCondition c).evaluate y = .ok verdict := by
  have hmagnitude : o.magnitude = p.magnitude := by
    rw [Number.absValue?_eq_magnitude hx, Number.absValue?_eq_magnitude hy] at h
    exact Option.some.inj h
  refine ⟨(ofCondition c).accepts o, ?_, ?_⟩
  · rw [evaluate, hx]
    rfl
  · rw [evaluate, hy, accepts_eq_of_magnitude_eq hc hmagnitude]
    rfl

/-- A text with a sign and zeros behind, and a float. -/
theorem evaluate_eq_of_absValue_eq_zeros :
    ∃ c verdict, c = Formula.all [.atom (Expr.within ⟨.n, none⟩ [⟨1, 2, by decide⟩]),
        .any [.atom (Expr.isNot ⟨.w, some ⟨2, by decide⟩⟩ 0), .atom (Expr.is ⟨.t, none⟩ 5)]] ∧
      (ofCondition c).evaluate (.text "-1.500") = .ok verdict ∧
      (ofCondition c).evaluate (.binary64 0x3ff8000000000000) = .ok verdict := by
  have htext : (Number.text "-1.500").operands = .ok ⟨1500, 3, by decide, by decide⟩ := by
    decide +kernel
  have hfloat : (Number.binary64 0x3ff8000000000000).operands =
      .ok ⟨15, 1, by decide, by decide⟩ := by
    decide +kernel
  obtain ⟨verdict, hverdict⟩ := evaluate_eq_of_absValue_eq (c := Formula.all
      [.atom (Expr.within ⟨.n, none⟩ [⟨1, 2, by decide⟩]),
        .any [.atom (Expr.isNot ⟨.w, some ⟨2, by decide⟩⟩ 0), .atom (Expr.is ⟨.t, none⟩ 5)]])
    (by simp [Expr.within, Expr.is, Expr.isNot]) htext hfloat (by
      rw [Number.absValue?_eq_magnitude htext, Number.absValue?_eq_magnitude hfloat]
      norm_num [Operands.magnitude])
  exact ⟨_, verdict, rfl, hverdict⟩

/-- The shortest decimal for one tenth in single precision is not the one for the same binary number
in double precision: the two are equal, but `w` is 1 for the first and 17 for the second. -/
theorem evaluate_ne_of_exactValue_eq :
    (∀ r ∈ (Formula.atom (Expr.is ⟨.w, none⟩ 1)).atoms,
      r.expr.operand ≠ .v ∧ r.expr.operand ≠ .f) ∧
    (Number.binary32 0x3dcccccd).absValue? Binary.Magnitude.exactValue =
      (Number.binary64 0x3fb99999a0000000).absValue? Binary.Magnitude.exactValue ∧
    (ofCondition (.atom (Expr.is ⟨.w, none⟩ 1))).evaluate (.binary32 0x3dcccccd) = .ok true ∧
    (ofCondition (.atom (Expr.is ⟨.w, none⟩ 1))).evaluate (.binary64 0x3fb99999a0000000) =
      .ok false := by
  refine ⟨by simp [Expr.is], ?_, by decide +kernel, by decide +kernel⟩
  have hsingle : Binary.Format.binary32.decode (0x3dcccccd : UInt32).toNat =
      .finite false ⟨13421773, -27, false⟩ := by
    decide +kernel
  have hdouble : Binary.Format.binary64.decode (0x3fb99999a0000000 : UInt64).toNat =
      .finite false ⟨13421773 * 2 ^ 29, -56, false⟩ := by
    decide +kernel
  rw [Number.absValue?, Number.absValue?, hsingle, hdouble, Binary.Value.absValue?,
    Binary.Value.absValue?, Binary.Magnitude.exactValue, Binary.Magnitude.exactValue]
  norm_num

end Predicate

end PluralRules
