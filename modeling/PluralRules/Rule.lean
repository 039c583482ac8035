import PluralRules.Predicate
import PluralRules.Sample

/-!
Plural rules: a condition, and the samples that were listed with it.

* `Rule.failing`: the sample numbers that a predicate does not accept. With the
  rule's own predicate it is empty if the samples agree with the condition.
-/

namespace PluralRules

/-- A condition with its samples. -/
structure Rule where
  condition : Condition
  samples : List Sample
  deriving DecidableEq

namespace Rule

/-- The predicate of a rule. -/
def predicate (r : Rule) : Predicate :=
  .ofCondition r.condition

/-- The sample numbers that a predicate does not accept, in order. -/
def failing (r : Rule) (p : Predicate) : List Operands :=
  (r.samples.flatMap Sample.endpoints).filter (!p.accepts ·)

end Rule

end PluralRules
