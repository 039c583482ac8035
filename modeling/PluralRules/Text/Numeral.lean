/-!
Numbers written in decimal digits.

A *numeral* is a number as it stands in a text: perhaps a minus sign, digits,
and perhaps a point with more digits. Nothing is lost in it, neither leading
zeros nor trailing ones.

* `Numeral.scan?` reads the longest unsigned numeral a text starts with, and
  `Numeral.ofChars?` a text that is one numeral from end to end.
* `Numeral.ofScaled` writes `coeff / 10 ^ scale` with `scale` fraction digits.
* `ofChars?_eq_some_iff`: a numeral is read from the characters that write it,
  and from no others.
-/

namespace PluralRules

-- Powers are those of core, also where monoids have them.
attribute [local instance(high)] instPowNat

/-- A number written in digits, with the point after its whole digits. -/
@[ext]
structure Numeral where
  /-- Whether a minus sign stands in front. -/
  negative : Bool
  /-- The digits before the point. -/
  whole : List Char
  /-- The digits after the point; with none there is no point either. -/
  fraction : List Char
  whole_ne_nil : whole ≠ []
  isDigit_whole : ∀ c ∈ whole, c.isDigit
  isDigit_fraction : ∀ c ∈ fraction, c.isDigit
  deriving DecidableEq

namespace Numeral

/-- The characters that write a numeral, its sign apart. -/
def magnitude (n : Numeral) : List Char :=
  n.whole ++ if n.fraction = [] then [] else '.' :: n.fraction

/-- The characters that write a numeral. -/
def chars (n : Numeral) : List Char :=
  if n.negative then '-' :: n.magnitude else n.magnitude

/-- The written form of a numeral. -/
def text (n : Numeral) : String :=
  String.ofList n.chars

/-- All digits of a numeral, read as one integer. -/
def digitsValue (n : Numeral) : Nat :=
  Nat.ofDigitChars 10 (n.whole ++ n.fraction) 0

/-! ### Reading -/

/-- Splits a text into the fraction digits it starts with, after a point, and
the rest. A point that no digit follows belongs to the rest. -/
def splitFraction : List Char → List Char × List Char
  | '.' :: s =>
      if s.takeWhile Char.isDigit = [] then ([], '.' :: s)
      else (s.takeWhile Char.isDigit, s.dropWhile Char.isDigit)
  | s => ([], s)

theorem isDigit_of_mem_takeWhile {c : Char} {s : List Char}
    (h : c ∈ s.takeWhile Char.isDigit) : c.isDigit :=
  List.all_eq_true.1 List.all_takeWhile c h

theorem isDigit_of_mem_splitFraction {c : Char} {s : List Char}
    (h : c ∈ (splitFraction s).1) : c.isDigit := by
  unfold splitFraction at h
  split at h
  · split at h
    · simp at h
    · exact isDigit_of_mem_takeWhile h
  · simp at h

/-- Splitting the fraction off loses nothing but, where there is one, its
point. -/
theorem splitFraction_append (s : List Char) :
    (if (splitFraction s).1 = [] then [] else '.' :: (splitFraction s).1) ++
      (splitFraction s).2 = s := by
  unfold splitFraction
  split
  · split <;> simp_all
  · simp

/-- The longest unsigned numeral that a text starts with, given the sign it is
to have, and the rest of the text. -/
def scan? (negative : Bool) (s : List Char) : Option (Numeral × List Char) :=
  if h : s.takeWhile Char.isDigit = [] then
    none
  else
    let split := splitFraction (s.dropWhile Char.isDigit)
    some
      ({ negative
         whole := s.takeWhile Char.isDigit
         fraction := split.1
         whole_ne_nil := h
         isDigit_whole := fun _ => isDigit_of_mem_takeWhile
         isDigit_fraction := fun _ => isDigit_of_mem_splitFraction },
       split.2)

/-- The longest numeral that a text starts with, with its sign, and the rest. -/
def scanSigned? : List Char → Option (Numeral × List Char)
  | '-' :: s => scan? true s
  | s => scan? false s

/-- The numeral that a text is from end to end. -/
def ofChars? (s : List Char) : Option Numeral :=
  match scanSigned? s with
  | some (n, []) => some n
  | _ => none

/-- What has been scanned is the numeral, as it is written. -/
theorem eq_append_of_scan? {negative : Bool} {s rest : List Char} {n : Numeral}
    (h : scan? negative s = some (n, rest)) :
    n.negative = negative ∧ s = n.magnitude ++ rest := by
  unfold scan? at h
  split at h
  · simp at h
  · simp only [Option.some.injEq, Prod.mk.injEq] at h
    obtain ⟨rfl, rfl⟩ := h
    refine ⟨rfl, ?_⟩
    have hs := List.takeWhile_append_dropWhile (p := Char.isDigit) (l := s)
    simp only [magnitude, List.append_assoc]
    rw [← splitFraction_append (s.dropWhile Char.isDigit)] at hs
    exact hs.symm

/-- A written numeral is scanned as itself, if what follows neither goes on
with a digit nor adds fraction digits to a numeral that has none. -/
theorem scan?_magnitude_append (n : Numeral) (rest : List Char)
    (hd : rest.head?.all (!Char.isDigit ·))
    (hf : n.fraction = [] → splitFraction rest = ([], rest)) :
    scan? n.negative (n.magnitude ++ rest) = some (n, rest) := by
  have hr : rest.takeWhile Char.isDigit = [] ∧ rest.dropWhile Char.isDigit = rest := by
    cases rest with
    | nil => simp
    | cons c r => simp_all
  have hsplit : splitFraction
      ((if n.fraction = [] then [] else '.' :: n.fraction) ++ rest) =
        (n.fraction, rest) := by
    split
    · simp_all
    · have hn := n.isDigit_fraction
      simp_all [splitFraction, List.takeWhile_append_of_pos, List.dropWhile_append_of_pos]
  have htail : ((if n.fraction = [] then [] else '.' :: n.fraction) ++ rest).head?.all
      (!Char.isDigit ·) := by
    split
    · exact hd
    · rfl
  generalize htl :
    (if n.fraction = [] then [] else '.' :: n.fraction) ++ rest = tail at *
  have htake :
      tail.takeWhile Char.isDigit = [] ∧ tail.dropWhile Char.isDigit = tail := by
    cases tail with
    | nil => simp
    | cons c r => simp_all
  have hw : (n.whole ++ tail).takeWhile Char.isDigit = n.whole := by
    rw [List.takeWhile_append_of_pos n.isDigit_whole, htake.1, List.append_nil]
  have hdw : (n.whole ++ tail).dropWhile Char.isDigit = tail := by
    rw [List.dropWhile_append_of_pos n.isDigit_whole, htake.2]
  simp only [scan?, magnitude, List.append_assoc, htl, hw, hdw, hsplit,
    n.whole_ne_nil, dite_false]

theorem magnitude_ne_cons_minus (n : Numeral) (s : List Char) :
    n.magnitude ≠ '-' :: s := by
  intro h
  cases hw : n.whole with
  | nil => exact n.whole_ne_nil hw
  | cons c cs =>
      have hc := n.isDigit_whole c (by simp [hw])
      simp only [magnitude, hw, List.cons_append, List.cons.injEq] at h
      rw [h.1] at hc
      exact absurd hc (by decide)

/-- A numeral is read from the characters that write it, and from no others. -/
theorem ofChars?_eq_some_iff {s : List Char} {n : Numeral} :
    ofChars? s = some n ↔ s = n.chars := by
  constructor
  · intro h
    unfold ofChars? at h
    split at h
    · rename_i m hm
      simp only [Option.some.injEq] at h
      subst h
      unfold scanSigned? at hm
      split at hm <;>
        · obtain ⟨hneg, rfl⟩ := eq_append_of_scan? hm
          simp [chars, hneg]
    · simp at h
  · rintro rfl
    have hs := scan?_magnitude_append n [] rfl fun _ => rfl
    rw [List.append_nil] at hs
    have hsigned : scanSigned? n.chars = some (n, []) := by
      cases hneg : n.negative with
      | true => rw [← hs, hneg]; simp [chars, hneg, scanSigned?]
      | false =>
          rw [← hs, hneg]
          have := n.magnitude_ne_cons_minus
          simp only [chars, hneg, Bool.false_eq_true, if_false, scanSigned?]
    rw [ofChars?, hsigned]

/-! ### Writing -/

/-- The digits of a natural number, at least `width` of them. -/
def paddedDigits (width n : Nat) : List Char :=
  (Nat.toDigits 10 n).leftpad width '0'

theorem isDigit_of_mem_toDigits {c : Char} {n : Nat} (h : c ∈ Nat.toDigits 10 n) :
    c.isDigit :=
  Nat.isDigit_of_mem_toDigits (by decide : 0 < 10) (by decide) h

theorem isDigit_of_mem_paddedDigits {c : Char} {width n : Nat}
    (h : c ∈ paddedDigits width n) : c.isDigit := by
  simp only [paddedDigits, List.leftpad, List.mem_append, List.mem_replicate] at h
  rcases h with ⟨-, rfl⟩ | h
  · decide
  · exact isDigit_of_mem_toDigits h

/-- The numeral of `coeff / 10 ^ scale` with `scale` fraction digits. -/
def ofScaled (negative : Bool) (coeff scale : Nat) : Numeral where
  negative
  whole := Nat.toDigits 10 (coeff / 10 ^ scale)
  fraction :=
    if scale = 0 then [] else paddedDigits scale (coeff % 10 ^ scale)
  whole_ne_nil := Nat.toDigits_ne_nil
  isDigit_whole _ := isDigit_of_mem_toDigits
  isDigit_fraction c h := by
    split at h
    · simp at h
    · exact isDigit_of_mem_paddedDigits h

theorem length_paddedDigits {width n : Nat} (h : n < 10 ^ width) (hw : 0 < width) :
    (paddedDigits width n).length = width := by
  have : (Nat.toDigits 10 n).length ≤ width :=
    (Nat.length_toDigits_le_iff (by decide) hw).2 h
  simp only [paddedDigits, List.leftpad, List.length_append, List.length_replicate]
  omega

theorem ofDigitChars_paddedDigits (width n : Nat) :
    Nat.ofDigitChars 10 (paddedDigits width n) 0 = n := by
  simp [paddedDigits, List.leftpad, Nat.ofDigitChars_append]

/-- A scaled numeral has as many fraction digits as its scale says. -/
theorem length_fraction_ofScaled (negative : Bool) (coeff scale : Nat) :
    (ofScaled negative coeff scale).fraction.length = scale := by
  by_cases h : scale = 0
  · simp [ofScaled, h]
  · simp only [ofScaled, h, if_false]
    exact length_paddedDigits (Nat.mod_lt _ (Nat.pow_pos (by decide))) (by omega)

/-- The digits of a scaled numeral spell its coefficient. -/
theorem digitsValue_ofScaled (negative : Bool) (coeff scale : Nat) :
    (ofScaled negative coeff scale).digitsValue = coeff := by
  have hl := length_fraction_ofScaled negative coeff scale
  by_cases h : scale = 0
  · simp [ofScaled, digitsValue, h]
  · rw [digitsValue, Nat.ofDigitChars_append, Nat.ofDigitChars_eq_ofDigitChars_zero, hl]
    simp only [ofScaled, h, if_false, ofDigitChars_paddedDigits,
      Nat.ofDigitChars_ten_toDigits]
    exact Nat.div_add_mod coeff (10 ^ scale)

end Numeral

end PluralRules
