import PluralRules.Condition.RuleText
import PluralRules.Number

/-!
Predicates: conditions made ready to be decided.

The relations of a condition become tests, which say of each modulus and range
what is asked without the wording, and groups of one part disappear.

* `Test.holds`: whether the operands of a number pass a test.
* `Predicate.ofCondition`, `Predicate.accepts`: the predicate of a condition,
  and its verdict on operands.
* `Predicate.evaluate`, `Predicate.rejects`: its verdict on a number, which may
  have no operands.
-/

namespace PluralRules

/-- What a relation asks of the operands. -/
structure Test where
  operand : Operand
  modulus? : Option Modulus
  /-- Whether the value has to be an integer. -/
  integral : Bool
  negated : Bool
  bounds : List Range
  deriving DecidableEq

/-- Whether a decimal lies between the bounds of a range. -/
def Range.contains (r : Range) (x : Decimal) : Bool :=
  x.atLeast r.low.toNat && x.atMost r.high.toNat

/-- Whether a comparison admits integers only. -/
def Comparison.isIntegral : Comparison → Bool
  | .is => true
  | .in => true
  | .within => false

namespace Test

/-- The test of a relation. -/
def ofRelation (r : Relation) : Test where
  operand := r.expr.operand
  modulus? := r.expr.modulus?
  integral := r.comparison.isIntegral
  negated := r.negated
  bounds := r.ranges

/-- The value that a test compares. -/
def value (test : Test) (o : Operands) : Decimal :=
  match test.modulus? with
  | none => o.get test.operand
  | some m => (o.get test.operand).rem m.val.toNat

/-- Whether operands pass a test. -/
def holds (test : Test) (o : Operands) : Bool :=
  let x := test.value o
  let hit := (!test.integral || x.isIntegral) && test.bounds.any (·.contains x)
  hit != test.negated

end Test

/-- The tests of a condition. -/
def Condition.tests (c : Condition) : Formula Test :=
  c.lower Test.ofRelation

/-- A condition together with its tests. -/
@[ext]
structure Predicate where
  condition : Condition
  tests : Formula Test
  tests_eq : tests = Condition.tests condition
  deriving DecidableEq

namespace Predicate

/-- The predicate of a condition. -/
def ofCondition (c : Condition) : Predicate :=
  ⟨c, c.tests, rfl⟩

/-- Whether operands belong to what a predicate describes. -/
def accepts (p : Predicate) (o : Operands) : Bool :=
  p.tests.holds (·.holds o)

/-- Whether a number belongs to what a predicate describes. -/
def evaluate (p : Predicate) (x : Number) : Except NumberError Bool :=
  x.operands.map p.accepts

/-- Whether a number falls outside what a predicate describes. -/
def rejects (p : Predicate) (x : Number) : Except NumberError Bool :=
  (p.evaluate x).map (!·)

/-- A predicate in writing. -/
def text (p : Predicate) : String :=
  Condition.text p.condition

/-- A predicate is the one of its condition. -/
theorem ofCondition_condition (p : Predicate) : ofCondition p.condition = p := by
  cases p with
  | mk c tests h =>
      subst h
      rfl

end Predicate

end PluralRules
