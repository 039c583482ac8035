import PluralRules.Binary.Format
import PluralRules.Decimal

/-!
The shortest decimal that reads back as a given float.

Every real number between the two midpoints around a float rounds to it; the
midpoints do so if the significand is even, since a tie goes to the even
neighbour. Among the decimals in that interval the one with the fewest digits is
wanted, and of two with equally many digits the nearer.

On the grid of the multiples of `10 ^ e` only the two neighbours of the float
can be wanted: if any point of the grid lies in the interval, one of them does.
So the grids are tried from the coarsest on, by comparisons of natural numbers.

* `Interval.nearestOnGrid?`: the better neighbour on one grid. A point exactly
  half way between the two gives the upper one.
* `Magnitude.shortest`: the first grid that has one.
* `Magnitude.numeral`: its digits in positional notation, with no more fraction
  digits than are needed.
-/

namespace PluralRules.Binary

-- Powers are those of core, also where monoids have them.
attribute [local instance(high)] instPowNat

/-- The numbers that round to one float, in units of `2 ^ unitExponent`. -/
structure Interval where
  low : Nat
  middle : Nat
  high : Nat
  /-- Whether the two ends belong to it. -/
  closed : Bool
  unitExponent : Int
  deriving DecidableEq

namespace Interval

/-- Of a grid of step `10 ^ e`, `x` units are `x * gridFactor / gridDenominator`
steps. -/
def gridFactor (interval : Interval) (e : Int) : Nat :=
  2 ^ interval.unitExponent.toNat * 10 ^ (-e).toNat

/-- The denominator that belongs to `gridFactor`. -/
def gridDenominator (interval : Interval) (e : Int) : Nat :=
  2 ^ (-interval.unitExponent).toNat * 10 ^ e.toNat

/-- Whether `d * 10 ^ e` lies in the interval. -/
def containsGridPoint (interval : Interval) (e : Int) (d : Nat) : Bool :=
  let point := d * interval.gridDenominator e
  let low := interval.low * interval.gridFactor e
  let high := interval.high * interval.gridFactor e
  if interval.closed then low ≤ point && point ≤ high
  else low < point && point < high

/-- Of the two multiples of `10 ^ e` around the middle, the nearer one that lies
in the interval. -/
def nearestOnGrid? (interval : Interval) (e : Int) : Option Nat :=
  let middle := interval.middle * interval.gridFactor e
  let step := interval.gridDenominator e
  let below := middle / step
  let belowIsNearer := 2 * middle < (2 * below + 1) * step
  match interval.containsGridPoint e below,
      interval.containsGridPoint e (below + 1) with
  | true, true => some (if belowIsNearer then below else below + 1)
  | true, false => some below
  | false, true => some (below + 1)
  | false, false => none

/-- The exponent of the leading decimal digit of the middle. -/
def leadingExponent (interval : Interval) : Int :=
  let numerator := interval.middle * interval.gridFactor 0
  let denominator := interval.gridDenominator 0
  let guess : Int :=
    (Nat.toDigits 10 numerator).length - (Nat.toDigits 10 denominator).length
  if denominator * 10 ^ guess.toNat ≤ numerator * 10 ^ (-guess).toNat then guess
  else guess - 1

end Interval

namespace Magnitude

/-- The numbers that round to a float, in units of a quarter of its last
binary place. -/
def interval (x : Magnitude) : Interval where
  low := if x.narrowBelow then 4 * x.significand - 1 else 4 * x.significand - 2
  middle := 4 * x.significand
  high := 4 * x.significand + 2
  closed := x.significand % 2 = 0
  unitExponent := x.exponent - 2

/-- As many digits as tell any two floats of the formats in use apart. -/
def maxDigits : Nat := 17

/-- The shortest decimal `d * 10 ^ e` that reads back as the float. -/
def shortest (x : Magnitude) : Nat × Int :=
  let interval := x.interval
  let top := interval.leadingExponent
  let found := (List.range maxDigits).findSome? fun k : Nat =>
    (interval.nearestOnGrid? (top - k)).map (·, top - k)
  found.getD (x.significand * 2 ^ x.exponent.toNat, 0)

/-- The numeral of a float in positional notation. -/
def numeral (negative : Bool) (x : Magnitude) : Numeral :=
  if x.significand = 0 then
    .ofScaled negative 0 0
  else
    let (d, e) := x.shortest
    let (coeff, scale) := stripZeros (d * 10 ^ e.toNat) (-e).toNat
    .ofScaled negative coeff scale

end Magnitude

end PluralRules.Binary
