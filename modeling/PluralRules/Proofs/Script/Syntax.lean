import PluralRules.Condition.Script
import PluralRules.Proofs.Value
import PluralRules.Reading.Basic

/-!
Expressions as JavaScript reads and computes them.

An expression is read from its characters alone. Operators are kept in levels, the loosest
first; an operand of one level is an expression of the next one, and operators of one level
group from the left. What the tightest level joins is a word, an expression in parentheses, or
either of them behind signs of negation. Numbers are computed exactly, and nothing is
converted: an operator on operands of another kind has no value.

* `Script.Operator.levels`: the binary operators by precedence.
* `Script.ofChars?`: the expression that a text is.
* `Script.value`: its value, given the operands of a number.
* `Script.returned?`: the expression that a function gives back, as it stands in its text.
* `Script.result`: what the function gives back for the operands of a number.
-/

namespace PluralRules.Script

open Text Reading

/-! ### Reading -/

/-- A function that reads an expression from the front of a text. -/
abbrev Scan :=
  List Char → Option (Script × List Char)

/-- A binary operator: how it is written, and what it makes of two expressions. -/
structure Operator where
  sign : String
  join : Script → Script → Script

namespace Operator

/-- The binary operators by precedence, the loosest first. -/
def levels : List (List Operator) :=
  [[⟨"||", .or⟩], [⟨"&&", .and⟩], [⟨"===", .equal⟩], [⟨">=", .atLeast⟩, ⟨"<=", .atMost⟩],
    [⟨"%", .remainder⟩]]

/-- The operator of a level that comes next, with what follows it. -/
def next? (level : List Operator) (s : List Char) : Option (Operator × List Char) :=
  level.findSome? fun op => (between? (literal? op.sign) s).map fun rest => (op, rest)

end Operator

/-- Goes on behind an expression: each operator of the level joins one more operand, up to the
given number of them. -/
def more (level : List Operator) (item : Scan) : Nat → Script → Scan
  | 0, x, s => some (x, s)
  | bound + 1, x, s =>
      match Operator.next? level s with
      | none => some (x, s)
      | some (op, s) => do
          let (y, s) ← item s
          more level item bound (op.join x y) s

/-- Operands with operators of one level between them, grouped from the left. -/
def chain (level : List Operator) (item : Scan) : Scan := fun s => do
  let (x, s) ← item s
  more level item s.length x s

/-- What a run of letters and digits stands for. An integer is written without zeros in
front. -/
def ofWord? (word : List Char) : Option Script :=
  if Nat.toDigits 10 (Nat.ofDigitChars 10 word 0) = word then
    some (.number (Nat.ofDigitChars 10 word 0))
  else if word = "true".toList then some (.truth true)
  else if word = "false".toList then some (.truth false)
  else
    match word with
    | [c] => (Operand.ofSymbol? c).map .operand
    | _ => none

/-- What binary operators join. Signs of negation and parentheses may be nested as deep as the
given number. -/
def unary : Nat → Scan
  | 0, _ => none
  | depth + 1, '!' :: s => do
      let (x, s) ← unary depth (dropBlanks s)
      return (.not x, s)
  | depth + 1, '(' :: s => do
      let (x, s) ← Operator.levels.foldr chain (unary depth) (dropBlanks s)
      match dropBlanks s with
      | ')' :: s => return (.parenthesized x, s)
      | _ => none
  | _ + 1, s => do
      let x ← ofWord? (s.takeWhile Char.isAlphanum)
      return (x, s.dropWhile Char.isAlphanum)

/-- The expression that a text is from end to end. -/
def ofChars? (s : List Char) : Option Script :=
  match Operator.levels.foldr chain (unary s.length) (dropBlanks s) with
  | some (x, rest) => if dropBlanks rest = [] then some x else none
  | none => none

-- Negation binds tightest, and the remainder of a remainder groups from the left.
example : ofChars? "!(n % 10 % 1 === 0) || i >= 2 && true".toList =
    some (.or
      (.not (.parenthesized
        (.equal (.remainder (.remainder (.operand .n) (.number 10)) (.number 1)) (.number 0))))
      (.and (.atLeast (.operand .i) (.number 2)) (.truth true))) := by
  decide +kernel

/-! ### Values -/

/-- What an expression can be computed to. -/
inductive Value where
  | number (x : ℚ)
  | truth (b : Bool)
  deriving DecidableEq

namespace Value

/-- An operation on two numbers. -/
def onNumbers (f : ℚ → ℚ → Option Value) : Option Value → Option Value → Option Value
  | some (number x), some (number y) => f x y
  | _, _ => none

/-- A comparison of two numbers. -/
def compare (f : ℚ → ℚ → Bool) : Option Value → Option Value → Option Value :=
  onNumbers fun x y => some (truth (f x y))

/-- An operation on two truth values. -/
def onTruths (f : Bool → Bool → Bool) : Option Value → Option Value → Option Value
  | some (truth a), some (truth b) => some (truth (f a b))
  | _, _ => none

/-- The opposite of a truth value. -/
def negate : Option Value → Option Value
  | some (truth b) => some (truth !b)
  | _ => none

/-- A number without its fraction. -/
def truncate (q : ℚ) : ℤ :=
  if 0 ≤ q then ⌊q⌋ else ⌈q⌉

/-- The exact remainder, with the sign of the first number. By zero there is none. -/
def remainder (x y : ℚ) : Option Value :=
  if y = 0 then none else some (number (x - y * truncate (x / y)))

end Value

/-- The value of an expression, in which the letters stand for the operands of a number. -/
def value (o : Operands) : Script → Option Value
  | truth b => some (.truth b)
  | operand k => some (.number (o.get k).value)
  | number x => some (.number x)
  | remainder x y => Value.onNumbers Value.remainder (x.value o) (y.value o)
  | equal x y => Value.compare (fun a b => a = b) (x.value o) (y.value o)
  | atLeast x y => Value.compare (fun a b => b ≤ a) (x.value o) (y.value o)
  | atMost x y => Value.compare (fun a b => a ≤ b) (x.value o) (y.value o)
  | not x => Value.negate (x.value o)
  | and x y => Value.onTruths (· && ·) (x.value o) (y.value o)
  | or x y => Value.onTruths (· || ·) (x.value o) (y.value o)
  | parenthesized x => x.value o

/-! ### Functions -/

/-- What stands between the first `return` of a text and its last semicolon. -/
def returned? (source : List Char) : Option (List Char) :=
  (source.tails.findSome? (literal? "return ")).map fun rest =>
    (rest.reverse.dropWhile (· ≠ ';')).tail.reverse

/-- What the function with the given text gives back, once it has found the operands. -/
def result (o : Operands) (source : String) : Option Value := do
  let text ← returned? source.toList
  let x ← ofChars? text
  x.value o

end PluralRules.Script
