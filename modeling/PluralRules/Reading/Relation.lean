import PluralRules.Reading.Basic
import PluralRules.Relation

/-!
Reading relations.

* `Reading.integer`: an integer of 64 bits. Digits that a point and a digit
  follow are none.
* `Modulus.read`, `Range.readUpper`, `Range.read`, `Range.readList`: what is made
  of integers.
* `Operand.read`, `Expr.read`: the left side of a relation. An operand letter
  stands alone.
* `Comparison.read`: the words or signs in the middle.
* `Relation.read`: the whole.
-/

namespace PluralRules

-- Powers are those of core, also where monoids have them.
attribute [local instance(high)] instPowNat

open Reading Text

/-! ### Integers -/

/-- Whether a text goes on with a point and a digit. -/
def Reading.startsFraction : List Char → Bool
  | '.' :: c :: _ => c.isDigit
  | _ => false

/-- An integer of at most 64 bits, for the given use. -/
def Reading.integer (role : ValueRole) : Reader UInt64 := fun s =>
  let digits := s.takeWhile Char.isDigit
  let rest := s.dropWhile Char.isDigit
  if digits = [] then stop s (.value role false)
  else if startsFraction rest then stop rest (.value role false)
  else
    let x := Nat.ofDigitChars 10 digits 0
    if x < 2 ^ (64 : Nat) then .ok (UInt64.ofNat x, rest) else stop s (.value role true)

/-- A modulus, which is not zero. -/
def Modulus.read : Reader Modulus := fun s => do
  let (x, rest) ← integer .modulus s
  match Modulus.ofValue? x with
  | some m => return (m, rest)
  | none => stop s .zeroModulus

/-- The upper bound of a range, which is not below the lower one. -/
def Range.readUpper (low : UInt64) : Reader UInt64 := fun s => do
  let (high, rest) ← integer .upperBound s
  if low ≤ high then return (high, rest) else stop s .invertedRange

/-- A range: one value, or two bounds. If these made no range, it would be the one
of the lower bound, but inverted bounds have been refused by then. -/
def Range.read : Reader Range := fun s => do
  let (low, s) ← integer .plain s
  match between? (literal? "..") s with
  | none => return (.single low, s)
  | some s => do
      let (high, s) ← readUpper low s
      return ((Range.ofBounds? low high).getD (.single low), s)

/-- One or more ranges with commas between them. -/
def Range.readList : Reader (List Range) :=
  chain (between? (literal? ",")) Range.read

/-! ### Expressions -/

/-- An operand letter that stands alone. -/
def Operand.read : Reader Operand
  | [] => stop [] .operand
  | c :: rest =>
      match Operand.ofSymbol? c with
      | none => stop (c :: rest) .operand
      | some o =>
          if startsAlphanumeric rest then stop rest .operand else .ok (o, rest)

/-- The word or sign between an operand and its modulus. -/
def Modulus.mark? : Mark := between? fun s =>
  keyword? "mod" s <|> literal? "%" s

/-- An operand, with its modulus if one is marked. -/
def Expr.read : Reader Expr := fun s => do
  let (o, s) ← Operand.read s
  match Modulus.mark? s with
  | none => return (⟨o, none⟩, s)
  | some s => do
      let (m, s) ← Modulus.read s
      return (⟨o, some m⟩, s)

/-! ### Comparisons -/

/-- Whether the word `not` stands here, and what follows it. -/
def Reading.skipNot (s : List Char) : Bool × List Char :=
  match keyword? "not" s with
  | some rest => (true, dropBlanks rest)
  | none => (false, s)

/-- The words `in` and `within`, with `not` before them or without. A longer word
that starts with `within` is a fault behind that start, any other text one at
its own start. -/
def Comparison.readMembership : Reader (Bool × Comparison) := fun s =>
  let (negated, s) := skipNot s
  match keyword? "in" s, literal? "within" s with
  | some rest, _ => .ok ((negated, .in), rest)
  | none, some rest =>
      if startsAlphanumeric rest then stop rest .comparison
      else .ok ((negated, .within), rest)
  | none, none => stop s .comparison

/-- A comparison, and whether it is negated. The sign `=` means `in`. -/
def Comparison.read : Reader (Bool × Comparison) := fun s =>
  match keyword? "is" s, literal? "!=" s, literal? "=" s with
  | some rest, _, _ =>
      let (negated, rest) := skipNot (dropBlanks rest)
      .ok ((negated, .is), rest)
  | none, some rest, _ => .ok ((true, .in), rest)
  | none, none, some rest => .ok ((false, .in), rest)
  | none, none, none => readMembership s

/-- What a comparison is made with: one value for `is`, else ranges. -/
def Comparison.readRanges : Comparison → Reader (List Range)
  | .is => fun s => do
      let (x, s) ← integer .plain s
      return ([.single x], s)
  | .in => Range.readList
  | .within => Range.readList

/-- A relation, with blanks before it. -/
def Relation.read : Reader Relation := fun s => do
  let (x, s) ← Expr.read (dropBlanks s)
  let ((negated, comparison), s) ← Comparison.read (dropBlanks s)
  let (ranges, s) ← comparison.readRanges (dropBlanks s)
  return (⟨x, negated, comparison, ranges⟩, s)

end PluralRules
