/-!
White space.

Two classes of characters separate words. The grammar of rules knows four
*blanks*; the words of a message and the ends of a number's text are found by
the Unicode property `White_Space`, which is larger.

* `isBlank`: space, tab, carriage return, line feed.
* `isSpace`: the property `White_Space`, as a table of code points.
* `dropBlanks`, `trim`, `firstWord?`: what is left of a text, or found in it.
-/

namespace PluralRules.Text

/-- The blanks of rule text. -/
def isBlank (c : Char) : Bool :=
  c = ' ' || c = '\t' || c = '\r' || c = '\n'

/-- The ranges of code points with the Unicode property `White_Space`. -/
def spaceRanges : List (Nat × Nat) :=
  [(0x9, 0xD), (0x20, 0x20), (0x85, 0x85), (0xA0, 0xA0), (0x1680, 0x1680),
   (0x2000, 0x200A), (0x2028, 0x2029), (0x202F, 0x202F), (0x205F, 0x205F),
   (0x3000, 0x3000)]

/-- A character with the Unicode property `White_Space`. -/
def isSpace (c : Char) : Bool :=
  spaceRanges.any fun (low, high) => low ≤ c.toNat && c.toNat ≤ high

/-- A text without the blanks it starts with. -/
def dropBlanks (s : List Char) : List Char :=
  s.dropWhile isBlank

/-- A text without white space at its two ends. -/
def trim (s : List Char) : List Char :=
  ((s.dropWhile isSpace).reverse.dropWhile isSpace).reverse

/-- The first run of characters that are not white space, if there is one. -/
def firstWord? (s : List Char) : Option (List Char) :=
  match s.dropWhile isSpace with
  | [] => none
  | c :: rest => some (c :: rest.takeWhile (!isSpace ·))

/-- What is left of a text starts with no blank. -/
theorem head?_dropBlanks (s : List Char) :
    (dropBlanks s).head?.all (!isBlank ·) := by
  have h := List.head?_dropWhile_not isBlank s
  cases hs : (dropBlanks s).head? with
  | none => rfl
  | some c =>
      simp only [dropBlanks] at hs
      simp [hs] at h
      simp [h]

end PluralRules.Text
