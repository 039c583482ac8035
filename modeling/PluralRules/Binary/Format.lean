/-!
Binary floating-point formats.

The bits of a float are a sign, a biased exponent and a fraction. Decoded, they
are an integer times a power of two, an infinity, or no number at all.

* `Binary.Format.binary64`, `Binary.Format.binary32`: the two formats in use.
* `Binary.Format.decode`: the value that a pattern of bits stands for.
-/

namespace PluralRules.Binary

-- Powers are those of core, also where monoids have them.
attribute [local instance(high)] instPowNat

/-- The widths of the two fields beside the sign. -/
structure Format where
  fractionBits : Nat
  exponentBits : Nat
  deriving DecidableEq

/-- The magnitude `significand * 2 ^ exponent` of a finite float. -/
structure Magnitude where
  significand : Nat
  exponent : Int
  /-- Whether the next smaller float is only half as far away as the next
  larger one. It is at a power of two, the least normal one apart. -/
  narrowBelow : Bool
  deriving DecidableEq

/-- What the bits of a float stand for. -/
inductive Value where
  | finite (negative : Bool) (magnitude : Magnitude)
  | infinite (negative : Bool)
  | notANumber
  deriving DecidableEq

namespace Format

/-- Double precision. -/
def binary64 : Format := ⟨52, 11⟩

/-- Single precision. -/
def binary32 : Format := ⟨23, 8⟩

/-- The magnitude with a biased exponent and a fraction. A biased exponent of
zero has no leading one and shares its power of two with the next. -/
def magnitude (format : Format) (biased fraction : Nat) : Magnitude where
  significand :=
    if biased = 0 then fraction else 2 ^ format.fractionBits + fraction
  exponent :=
    max biased 1 - (2 ^ (format.exponentBits - 1) - 1) - format.fractionBits
  narrowBelow := fraction = 0 && 1 < biased

/-- The value of a pattern of bits. -/
def decode (format : Format) (bits : Nat) : Value :=
  let fraction := bits % 2 ^ format.fractionBits
  let biased := bits / 2 ^ format.fractionBits % 2 ^ format.exponentBits
  let negative :=
    bits / 2 ^ (format.fractionBits + format.exponentBits) % 2 = 1
  if biased = 2 ^ format.exponentBits - 1 then
    if fraction = 0 then .infinite negative else .notANumber
  else
    .finite negative (format.magnitude biased fraction)

end Format

end PluralRules.Binary
