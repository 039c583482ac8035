import PluralRules.Binary.Shortest
import PluralRules.Operands
import PluralRules.Text.Blank

/-!
Numbers in the forms in which they come, and their operands.

A number is a text, an integer, a decimal or a float. A text shows its fraction
digits, and so does a decimal by its scale; an integer has none; a float has
those of the shortest decimal that reads back as it. Digits are never rounded
away: a number with more digits than operands hold is refused.

* `Number.operands`: the operands of a number, or why it has none.
* `Number.written`: the number in writing.
* `NumberError.message`: the wording of each refusal.
-/

namespace PluralRules

-- Powers are those of core, also where monoids have them.
attribute [local instance(high)] instPowNat

/-- A float that is no finite number. -/
inductive NonFinite where
  | notANumber
  | infinity (negative : Bool)
  deriving DecidableEq

/-- The usual abbreviation. -/
def NonFinite.text : NonFinite → String
  | notANumber => "NaN"
  | infinity false => "inf"
  | infinity true => "-inf"

/-- Why a number has no operands. -/
inductive NumberError where
  /-- A float that is not finite. -/
  | nonFinite (value : NonFinite)
  /-- A number, by its text, with more digits than operands hold. -/
  | outOfRange (text : String)
  /-- A text that is no number. -/
  | malformed (text : String)
  deriving DecidableEq

/-- The wording of a refusal. -/
def NumberError.message : NumberError → String
  | nonFinite value => "operand is not finite: " ++ value.text
  | outOfRange text => "operand '" ++ text ++ "' exceeds decimal precision"
  | malformed text => "malformed number '" ++ text ++ "'"

/-- The operands of a numeral, if they have room for every digit. -/
def Operands.ofNumeral (x : Numeral) : Except NumberError Operands :=
  match Decimal.ofNumeral? x with
  | some d => .ok (.ofDecimal d)
  | none => .error (.outOfRange x.text)

/-- The operands of a text, which may have white space around its numeral. -/
def Operands.ofText (s : String) : Except NumberError Operands :=
  match Numeral.ofChars? (Text.trim s.toList) with
  | some x => Operands.ofNumeral x
  | none => .error (.malformed s)

/-- The operands of a float. -/
def Operands.ofBinary : Binary.Value → Except NumberError Operands
  | .finite negative x => Operands.ofNumeral (x.numeral negative)
  | .infinite negative => .error (.nonFinite (.infinity negative))
  | .notANumber => .error (.nonFinite .notANumber)

/-- A number in one of the forms in which it can be given. -/
inductive Number where
  | text (s : String)
  /-- An integer of at most 64 bits, with or without a sign. -/
  | integer (x : Int) (lower : -2 ^ (63 : Nat) ≤ x) (upper : x < 2 ^ (64 : Nat))
  | decimal (d : Decimal)
  | binary64 (bits : UInt64)
  | binary32 (bits : UInt32)

namespace Number

/-- The operands of a number. -/
def operands : Number → Except NumberError Operands
  | text s => Operands.ofText s
  | integer x _ _ => .ok (.ofNat x.natAbs (by omega))
  | decimal d => .ok (.ofDecimal d)
  | binary64 bits => Operands.ofBinary (Binary.Format.binary64.decode bits.toNat)
  | binary32 bits => Operands.ofBinary (Binary.Format.binary32.decode bits.toNat)

/-- The text of a float. -/
def textOfBinary : Binary.Value → String
  | .finite negative x => (x.numeral negative).text
  | .infinite negative => (NonFinite.infinity negative).text
  | .notANumber => NonFinite.notANumber.text

/-- A number in writing. -/
def written : Number → String
  | text s => s
  | integer x _ _ => toString x
  | decimal d => d.text
  | binary64 bits => textOfBinary (Binary.Format.binary64.decode bits.toNat)
  | binary32 bits => textOfBinary (Binary.Format.binary32.decode bits.toNat)

end Number

end PluralRules
