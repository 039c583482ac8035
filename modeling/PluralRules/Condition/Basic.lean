import PluralRules.Formula
import PluralRules.Relation

/-!
Conditions: formulas over relations.

* `Relation.alternatives`, `Condition.alternatives`: the disjunctive form. A
  relation without ranges asks for a member of the empty set: it never holds, or
  always if it is negated, and does not appear.
-/

namespace PluralRules

/-- What a plural rule asks of a number. -/
abbrev Condition := Formula Relation

/-- The alternatives of a relation. Without ranges it has none, or one that asks
for nothing. -/
def Relation.alternatives (r : Relation) : List (List Relation) :=
  if r.ranges = [] then
    if r.negated then [[]] else []
  else [[r]]

/-- The alternatives of a condition, each a list of relations that have to hold
together. -/
def Condition.alternatives (c : Condition) : List (List Relation) :=
  Formula.alternatives Relation.alternatives c

end PluralRules
