import PluralRules.Condition.Basic

/-!
Rule text.

Rule text has `and` within `or` and no grouping, so a condition is written by
its alternatives.

* `Relation.phrase`: a relation that has ranges, in words.
* `Condition.text`: the whole condition. With no alternative it is the phrase
  `never`; with an alternative that asks for nothing it is empty.
* `Relation.text`: a single relation, with ranges or without.
-/

namespace PluralRules

/-- A range in writing; one value stands for itself. -/
def Range.text (r : Range) : String :=
  if r.isSingle then toString r.low.toNat
  else toString r.low.toNat ++ ".." ++ toString r.high.toNat

/-- An expression in writing. -/
def Expr.text (x : Expr) : String :=
  let operand := String.singleton x.operand.symbol
  match x.modulus? with
  | none => operand
  | some m => operand ++ " mod " ++ toString m.val.toNat

namespace Relation

/-- The words that stand between the expression and the ranges. -/
def verb (r : Relation) : String :=
  match r.comparison, r.negated with
  | .is, false => " is "
  | .is, true => " is not "
  | .in, false => " in "
  | .in, true => " not in "
  | .within, false => " within "
  | .within, true => " not within "

/-- A relation that has ranges, in writing. -/
def phrase (r : Relation) : String :=
  r.expr.text ++ r.verb ++ ",".intercalate (r.ranges.map Range.text)

end Relation

namespace Condition

/-- The text of a condition that holds of no number. -/
def never : String :=
  "n is 0 and n is not 0"

/-- The text of some alternatives. -/
def textOfAlternatives : List (List Relation) → String
  | [] => never
  | terms =>
      if terms.any List.isEmpty then ""
      else
        " or ".intercalate
          (terms.map fun term => " and ".intercalate (term.map Relation.phrase))

/-- A condition in writing. -/
def text (c : Condition) : String :=
  textOfAlternatives (alternatives c)

end Condition

/-- A relation in writing, also if it has no ranges. -/
def Relation.text (r : Relation) : String :=
  if r.ranges = [] then Condition.text (.atom r) else r.phrase

end PluralRules
