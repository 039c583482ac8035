import PluralRules.Condition.RuleText

/-!
Conditions as JavaScript.

A condition becomes a boolean expression over the six operands, which the
function around it computes from the text of its argument. The expression is
built as a tree, `Script`, in which parentheses are explicit, and then printed.

* `Script.print`: an expression in writing.
* `Relation.script`, `Condition.script`: the expression of a condition.
* `Condition.source`: the whole function.

Among the operands only `n` can have a fraction, and a comparison with `===`
fails on a fraction anyway. So that a value is an integer is asked only where
the ranges of an `in` on `n` leave room for a fraction.
-/

namespace PluralRules

/-- An expression of the kind that conditions need. -/
inductive Script where
  | truth (value : Bool)
  | operand (o : Operand)
  | number (value : Nat)
  | remainder (x y : Script)
  | equal (x y : Script)
  | atLeast (x y : Script)
  | atMost (x y : Script)
  | not (x : Script)
  | and (x y : Script)
  | or (x y : Script)
  | parenthesized (x : Script)
  deriving DecidableEq

namespace Script

/-- An expression in writing. -/
def print : Script → String
  | truth value => if value then "true" else "false"
  | operand o => String.singleton o.symbol
  | number value => toString value
  | remainder x y => x.print ++ " % " ++ y.print
  | equal x y => x.print ++ " === " ++ y.print
  | atLeast x y => x.print ++ " >= " ++ y.print
  | atMost x y => x.print ++ " <= " ++ y.print
  | not x => "!" ++ x.print
  | and x y => x.print ++ " && " ++ y.print
  | or x y => x.print ++ " || " ++ y.print
  | parenthesized x => "(" ++ x.print ++ ")"

/-- The disjunction of several expressions. -/
def anyOf : List Script → Script
  | [] => truth false
  | x :: xs => xs.foldl or x

/-- The conjunction of several expressions. -/
def allOf : List Script → Script
  | [] => truth true
  | x :: xs => xs.foldl and x

/-- Puts parentheses around what joins two or more parts. -/
def enclose (join : List Script → Script) (parts : List Script) : Script :=
  match parts with
  | _ :: _ :: _ => parenthesized (join parts)
  | _ => join parts

end Script

/-- The value that a relation compares. -/
def Expr.script (x : Expr) : Script :=
  match x.modulus? with
  | none => .operand x.operand
  | some m => .remainder (.operand x.operand) (.number m.val.toNat)

/-- That a value lies in a range. -/
def Range.script (x : Script) (r : Range) : Script :=
  if r.isSingle then .equal x (.number r.low.toNat)
  else
    .and (.atLeast x (.number r.low.toNat)) (.atMost x (.number r.high.toNat))

namespace Relation

/-- Whether a fraction could lie in the ranges of a relation that admits
integers only. -/
def asksForInteger (r : Relation) : Bool :=
  r.comparison = .in && r.expr.operand = .n && r.ranges.any (!·.isSingle)

/-- The expression of a relation. -/
def script (r : Relation) : Script :=
  let x := r.expr.script
  let member := Script.anyOf (r.ranges.map (Range.script x))
  let body :=
    if r.asksForInteger then
      .and (.equal (.remainder x (.number 1)) (.number 0)) (.parenthesized member)
    else member
  if r.negated then .not (.parenthesized body) else .parenthesized body

end Relation

namespace Condition

/-- The expression of a condition. -/
def script (c : Condition) : Script :=
  c.fold (Script.enclose Script.anyOf) (Script.enclose Script.allOf) Relation.script

/-- What the function does before it decides: it finds the operands. -/
def preamble : String :=
  "function (n) \x7b
  var s = String(n).replace(/^[-+]/, \"\"), p = s.indexOf(\".\"),
      fs = p < 0 ? \"\" : s.slice(p + 1), ts = fs.replace(/0+$/, \"\");
  var i = Math.floor(Math.abs(+s)), v = fs.length, w = ts.length,
      f = fs ? +fs : 0, t = ts ? +ts : 0;
  n = Math.abs(+s);
"

/-- The function that decides a condition, from its argument's text. -/
def source (c : Condition) : String :=
  preamble ++ "  return " ++ (script c).print ++ ";\n\x7d"

end Condition

end PluralRules
