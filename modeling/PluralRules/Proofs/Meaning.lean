import PluralRules.Predicate
import PluralRules.Proofs.Formula
import PluralRules.Proofs.Value

/-!
What conditions mean.

The meaning of a condition is said of the condition itself, over exact rational numbers and
without a remainder or a test of decimals.

* `Expr.value`: an operand, less as many moduli as are whole in it.
* `Relation.Hits`, `Relation.Means`: whether the value lies in one of the ranges, and whether
  the relation holds. Integers are asked for where the comparison does; then the operand has
  to be one, before it is reduced.
* `Condition.Means`: some part of a disjunction, every part of a conjunction.
* `Predicate.ofCondition_accepts_iff`: the predicate of a condition accepts what the
  condition means.
-/

namespace PluralRules

/-- The value of an expression, in which `m` stands for `x - m * ⌊x / m⌋`. -/
def Expr.value (o : Operands) (x : Expr) : ℚ :=
  match x.modulus? with
  | none => o.value x.operand
  | some m => o.value x.operand - m.val.toNat * ⌊o.value x.operand / m.val.toNat⌋

/-- Whether operands are among what a relation lists. -/
structure Relation.Hits (o : Operands) (r : Relation) : Prop where
  /-- The value lies in one of the ranges. -/
  range : ∃ x ∈ r.ranges, (x.low.toNat : ℚ) ≤ r.expr.value o ∧ r.expr.value o ≤ x.high.toNat
  /-- The operand is an integer, unless the comparison is `within`. -/
  integer : r.comparison ≠ .within → Int.fract (o.value r.expr.operand) = 0

/-- Whether a relation holds of operands. -/
def Relation.Means (o : Operands) (r : Relation) : Prop :=
  if r.negated then ¬ r.Hits o else r.Hits o

/-- Whether a condition holds of operands. -/
inductive Condition.Means (o : Operands) : Condition → Prop where
  | any {parts : List Condition} {part : Condition} (mem : part ∈ parts)
      (holds : Condition.Means o part) : Condition.Means o (.any parts)
  | all {parts : List Condition} (holds : ∀ part ∈ parts, Condition.Means o part) :
      Condition.Means o (.all parts)
  | atom {r : Relation} (holds : r.Means o) : Condition.Means o (.atom r)

/-! ### Expressions -/

lemma Modulus.toNat_pos (m : Modulus) : 0 < m.val.toNat :=
  Nat.pos_of_ne_zero fun h => m.ne_zero (UInt64.toNat_inj.1 h)

namespace Expr

variable (o : Operands) (x : Expr)

lemma value_nonneg : 0 ≤ x.value o := by
  rw [value]
  split
  · exact o.value_nonneg _
  · next m _ =>
      have hm : (0 : ℚ) < m.val.toNat := Nat.cast_pos.2 m.toNat_pos
      rw [mul_comm]
      exact Int.sub_floor_div_mul_nonneg _ hm

/-- Reduction by a modulus keeps the fraction of the operand. -/
lemma fract_value : Int.fract (x.value o) = Int.fract (o.value x.operand) := by
  rw [value]
  split
  · rfl
  · rw [← Int.cast_natCast, ← Int.cast_mul, Int.fract_sub_intCast]

end Expr

/-! ### Tests -/

lemma Range.contains_iff (x : Range) (d : Decimal) :
    x.contains d = true ↔ (x.low.toNat : ℚ) ≤ d.value ∧ d.value ≤ x.high.toNat := by
  rw [contains, Bool.and_eq_true, Decimal.atLeast_iff, Decimal.atMost_iff]

lemma Comparison.isIntegral_iff (c : Comparison) : c.isIntegral = true ↔ c ≠ .within := by
  cases c <;> simp [isIntegral]

namespace Test

variable {o : Operands} {r : Relation}

/-- The value that the test of a relation compares is the value of its expression. -/
lemma value_ofRelation : ((ofRelation r).value o).value = r.expr.value o := by
  rw [value, Expr.value, ofRelation]
  cases r.expr.modulus? with
  | none => exact o.value_get _
  | some m => rw [Decimal.value_rem (o.coeff_get_nonneg _), o.value_get]

/-- Reduction by a modulus keeps the fraction, so it makes no difference to a test whether
the value or the operand is asked to be an integer. -/
lemma isIntegral_value_ofRelation :
    ((ofRelation r).value o).isIntegral = true ↔ Int.fract (o.value r.expr.operand) = 0 := by
  rw [Decimal.isIntegral_iff, ← o.value_get r.expr.operand]
  rw [value, ofRelation]
  cases r.expr.modulus? with
  | none => rfl
  | some m => rw [Decimal.fract_value_rem (o.coeff_get_nonneg _)]

/-- Before the negation, a test finds out whether its relation lists the operands. -/
lemma exists_hit : ∃ hit : Bool, (ofRelation r).holds o = (hit != r.negated) ∧
    (hit = true ↔ r.Hits o) := by
  refine ⟨_, rfl, ?_⟩
  have hintegral : (!(ofRelation r).integral || ((ofRelation r).value o).isIntegral) = true ↔
      (r.comparison ≠ .within → Int.fract (o.value r.expr.operand) = 0) := by
    rw [← Comparison.isIntegral_iff, ← isIntegral_value_ofRelation, Bool.or_eq_true,
      Bool.not_eq_true', ← Bool.not_eq_true, ← imp_iff_not_or]
    rfl
  have hbounds : (ofRelation r).bounds.any (·.contains ((ofRelation r).value o)) = true ↔
      ∃ x ∈ r.ranges, (x.low.toNat : ℚ) ≤ r.expr.value o ∧ r.expr.value o ≤ x.high.toNat := by
    rw [List.any_eq_true]
    refine exists_congr fun x => and_congr_right fun _ => ?_
    rw [Range.contains_iff, value_ofRelation]
  rw [Bool.and_eq_true, hintegral, hbounds]
  exact ⟨fun h => ⟨h.2, h.1⟩, fun h => ⟨h.integer, h.range⟩⟩

/-- A test passes what its relation means. -/
lemma holds_ofRelation_iff : (ofRelation r).holds o = true ↔ r.Means o := by
  obtain ⟨hit, hholds, hhit⟩ := exists_hit (o := o) (r := r)
  rw [hholds, Relation.Means, ← hhit]
  cases r.negated <;> simp

end Test

/-! ### Conditions -/

/-- The predicate of a condition accepts what the tests of its relations pass. -/
lemma Predicate.ofCondition_accepts (c : Condition) (o : Operands) :
    (ofCondition c).accepts o = c.holds fun r => (Test.ofRelation r).holds o :=
  Formula.holds_lower _ _ c

/-- **The meaning of a condition**: the predicate that is made of a condition accepts operands
if and only if the condition means them, whatever its shape, its ranges and its moduli. -/
theorem Predicate.ofCondition_accepts_iff (c : Condition) (o : Operands) :
    (ofCondition c).accepts o = true ↔ c.Means o := by
  rw [ofCondition_accepts]
  induction c using Formula.induction with
  | any parts ih =>
      rw [Formula.holds_any, List.any_eq_true]
      constructor
      · rintro ⟨part, hpart, hholds⟩
        exact .any hpart ((ih part hpart).1 hholds)
      · rintro (⟨hpart, hmeans⟩ | - | -)
        exact ⟨_, hpart, (ih _ hpart).2 hmeans⟩
  | all parts ih =>
      rw [Formula.holds_all, List.all_eq_true]
      constructor
      · intro hholds
        exact .all fun part hpart => (ih part hpart).1 (hholds part hpart)
      · rintro (- | hmeans | -) part hpart
        exact (ih part hpart).2 (hmeans part hpart)
  | atom r =>
      rw [Formula.holds_atom, Test.holds_ofRelation_iff]
      constructor
      · exact .atom
      · rintro (- | - | hmeans)
        exact hmeans

end PluralRules
