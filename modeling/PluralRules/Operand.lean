/-!
The operands of plural rules.

* `Operand.symbol` and `Operand.ofSymbol?`: the letter of an operand in rule
  text, and the operand of a letter; `ofSymbol?_eq_some_iff` ties the two.
-/

namespace PluralRules

/-- What a plural rule can ask of a number. -/
inductive Operand where
  /-- The absolute value. -/
  | n
  /-- The integer digits. -/
  | i
  /-- The number of visible fraction digits, trailing zeros counted. -/
  | v
  /-- The number of visible fraction digits, trailing zeros not counted. -/
  | w
  /-- The visible fraction digits as an integer, trailing zeros included. -/
  | f
  /-- The visible fraction digits as an integer, trailing zeros left out. -/
  | t
  deriving DecidableEq

namespace Operand

/-- All operands, in the order in which they are listed. -/
def list : List Operand :=
  [n, i, v, w, f, t]

/-- The letter of an operand in rule text. -/
def symbol : Operand → Char
  | n => 'n'
  | i => 'i'
  | v => 'v'
  | w => 'w'
  | f => 'f'
  | t => 't'

/-- The operand that a letter stands for. -/
def ofSymbol? (c : Char) : Option Operand :=
  list.find? (·.symbol = c)

@[simp]
theorem ofSymbol?_symbol (o : Operand) : ofSymbol? o.symbol = some o := by
  cases o <;> rfl

/-- A letter stands for the operand that it writes, and for no other. -/
theorem ofSymbol?_eq_some_iff {c : Char} {o : Operand} :
    ofSymbol? c = some o ↔ c = o.symbol := by
  constructor
  · intro h
    have hc : o.symbol = c := by simpa using List.find?_some h
    exact hc.symm
  · rintro rfl
    exact ofSymbol?_symbol o

end Operand

end PluralRules
