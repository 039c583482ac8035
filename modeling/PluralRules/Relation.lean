import PluralRules.Operand

/-!
Relations, the atoms of a condition.

A relation compares an operand, or its remainder by a modulus, with a list of
ranges: `n mod 10 not in 2..4,9`.

* `Range`, `Modulus`: the words that relations are made of, with what makes
  them sound in their types.
* `Comparison`: `is`, `in` or `within`.
* `Relation` and the constructors `Expr.is`, `Expr.inRanges` and so on.
-/

namespace PluralRules

/-- The integers from `low` to `high`, both included. -/
@[ext]
structure Range where
  low : UInt64
  high : UInt64
  low_le_high : low ≤ high
  deriving DecidableEq

namespace Range

/-- The range of one value. -/
def single (x : UInt64) : Range :=
  ⟨x, x, UInt64.le_refl x⟩

/-- The range between two bounds, if they are not inverted. -/
def ofBounds? (low high : UInt64) : Option Range :=
  if h : low ≤ high then some ⟨low, high, h⟩ else none

/-- Whether a range has one value only. -/
def isSingle (r : Range) : Bool :=
  r.low = r.high

theorem ofBounds?_eq_some_iff {low high : UInt64} {r : Range} :
    ofBounds? low high = some r ↔ r.low = low ∧ r.high = high := by
  unfold ofBounds?
  split
  · simp [Range.ext_iff, eq_comm]
  · rename_i h
    simp only [reduceCtorEq, false_iff]
    rintro ⟨rfl, rfl⟩
    exact h r.low_le_high

end Range

/-- What an operand may be reduced by. -/
@[ext]
structure Modulus where
  val : UInt64
  ne_zero : val ≠ 0
  deriving DecidableEq

/-- The modulus of a given value, unless that is zero. -/
def Modulus.ofValue? (x : UInt64) : Option Modulus :=
  if h : x = 0 then none else some ⟨x, h⟩

/-- The comparison a relation makes. -/
inductive Comparison where
  /-- The value is the one that is listed. -/
  | is
  /-- The value is an integer in one of the ranges. -/
  | in
  /-- The value lies between the bounds of one of the ranges. -/
  | within
  deriving DecidableEq

/-- An operand, perhaps reduced by a modulus. -/
structure Expr where
  operand : Operand
  modulus? : Option Modulus
  deriving DecidableEq

/-- A comparison of an expression with a list of ranges. -/
structure Relation where
  expr : Expr
  negated : Bool
  comparison : Comparison
  ranges : List Range
  deriving DecidableEq

/-- The opposite of a relation. -/
def Relation.not (r : Relation) : Relation :=
  { r with negated := !r.negated }

namespace Expr

/-- `x is value`. -/
def is (x : Expr) (value : UInt64) : Relation :=
  ⟨x, false, .is, [.single value]⟩

/-- `x is not value`. -/
def isNot (x : Expr) (value : UInt64) : Relation :=
  ⟨x, true, .is, [.single value]⟩

/-- `x in ranges`. -/
def inRanges (x : Expr) (ranges : List Range) : Relation :=
  ⟨x, false, .in, ranges⟩

/-- `x not in ranges`. -/
def notIn (x : Expr) (ranges : List Range) : Relation :=
  ⟨x, true, .in, ranges⟩

/-- `x within ranges`. -/
def within (x : Expr) (ranges : List Range) : Relation :=
  ⟨x, false, .within, ranges⟩

/-- `x not within ranges`. -/
def notWithin (x : Expr) (ranges : List Range) : Relation :=
  ⟨x, true, .within, ranges⟩

end Expr

end PluralRules
