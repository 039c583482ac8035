import PluralRules.Proofs.NumberText

/-!
All forms of a number, against its text.

A number that is given as an integer, a decimal or a float is not made into a text first, and an
integer is not even taken apart. Its operands are those of its text all the same.

* `Operands.ofText_text_numeral`: a numeral has no white space around it, so its text is read as
  the numeral.
* `Numeral.text_ofScaled_int`: an integer in writing, as a numeral without fraction digits.
* `Operands.stripped_of_ofNumeral_ofScaled`: a coefficient that does not end in zero leaves no
  zeros to be taken away. The numeral of a float has such a coefficient
  (`Binary.Magnitude.exists_numeral`).
* `Number.IsFinite`, `Number.Consistent`: the numbers that are meant, and what is said of them.
* `Number.consistent`: every form of a number agrees with its text.
-/

namespace PluralRules

/-! ### Numerals and their texts -/

namespace Numeral

/-- The signs and digits of a numeral are no white space. -/
lemma isSpace_eq_false_of_mem_chars {x : Numeral} {c : Char} (h : c ∈ x.chars) :
    Text.isSpace c = false := by
  have hrange : '-'.toNat ≤ c.toNat ∧ c.toNat ≤ '9'.toNat := by
    have hdigit : c.isDigit → '-'.toNat ≤ c.toNat ∧ c.toNat ≤ '9'.toNat := fun hc =>
      ⟨le_trans (by decide) (toNat_of_isDigit hc).1, (toNat_of_isDigit hc).2⟩
    have hmagnitude : c ∈ x.magnitude → '-'.toNat ≤ c.toNat ∧ c.toNat ≤ '9'.toNat := by
      rw [magnitude, List.mem_append]
      rintro (hc | hc)
      · exact hdigit (x.isDigit_whole c hc)
      · split at hc
        · exact absurd hc List.not_mem_nil
        · rcases List.mem_cons.1 hc with rfl | hc
          · decide
          · exact hdigit (x.isDigit_fraction c hc)
    rw [chars] at h
    split at h
    · rcases List.mem_cons.1 h with rfl | h
      · decide
      · exact hmagnitude h
    · exact hmagnitude h
  have hlow : 45 ≤ c.toNat := hrange.1
  have hhigh : c.toNat ≤ 57 := hrange.2
  simp only [Text.isSpace, Text.spaceRanges, List.any_cons, List.any_nil, Bool.or_false,
    Bool.or_eq_false_iff, Bool.and_eq_false_iff, decide_eq_false_iff_not]
  omega

/-- A numeral has no white space at its ends. -/
lemma trim_chars (x : Numeral) : Text.trim x.chars = x.chars := by
  refine (Text.Trims.eq_trim ⟨⟨[], [], by simp, nofun, nofun⟩, ?_, ?_⟩).symm
  · exact fun c hc => isSpace_eq_false_of_mem_chars (List.mem_of_mem_head? hc)
  · exact fun c hc => isSpace_eq_false_of_mem_chars (List.mem_of_mem_getLast? hc)

/-- An integer is written as the numeral that has its digits, and no others. -/
lemma text_ofScaled_int (x : Int) : (ofScaled (x < 0) x.natAbs 0).text = toString x := by
  have hdigits : ∀ n : Nat, (ofScaled false n 0).chars = Nat.toDigits 10 n := fun n => by
    simp [chars, magnitude, ofScaled]
  rw [← String.toList_inj, text, String.toList_ofList]
  cases x with
  | ofNat n =>
      have hneg : ¬ Int.ofNat n < 0 := Int.not_lt.2 (Int.natCast_nonneg n)
      have habs : (Int.ofNat n).natAbs = n := rfl
      rw [decide_eq_false hneg, habs, hdigits]
      exact Nat.toList_repr.symm
  | negSucc n => simp [chars, magnitude, ofScaled, Int.repr]

end Numeral

/-- The text of a numeral is read as this numeral. -/
lemma Operands.ofText_text_numeral (x : Numeral) : Operands.ofText x.text = Operands.ofNumeral x := by
  rw [Operands.ofText, Numeral.text, String.toList_ofList, x.trim_chars,
    Numeral.ofChars?_eq_some_iff.2 rfl]

/-- Operands are read back from their text, which shows each digit that they count. -/
lemma Operands.ofText_own_text (o : Operands) : Operands.ofText o.text = .ok o := by
  have hread : Operands.ofText o.text = Operands.ofNumeral o.n.numeral :=
    Operands.ofText_text_numeral o.n.numeral
  rw [hread, Operands.ofNumeral_eq_ok_iff]
  exact ⟨Numeral.digitsValue_ofScaled .., Numeral.length_fraction_ofScaled ..⟩

/-! ### Floats -/

/-- Nothing is taken away from a coefficient that does not end in zero. -/
lemma stripZeros_eq_self {coeff scale : Nat} (h : scale = 0 ∨ coeff % 10 ≠ 0) :
    stripZeros coeff scale = (coeff, scale) := by
  cases scale with
  | zero => rfl
  | succ scale => rw [stripZeros, if_neg (h.resolve_left (Nat.succ_ne_zero scale))]

/-- The numeral of a float is the one of a coefficient that does not end in zero, unless it has
no fraction digits. -/
lemma Binary.Magnitude.exists_numeral (negative : Bool) (m : Binary.Magnitude) :
    ∃ coeff scale, m.numeral negative = .ofScaled negative coeff scale ∧
      (scale = 0 ∨ coeff % 10 ≠ 0) := by
  rw [numeral]
  split
  · exact ⟨0, 0, rfl, .inl rfl⟩
  · exact ⟨_, _, rfl, stripZeros_least _ _⟩

namespace Operands

/-- If a coefficient does not end in zero, none of its fraction digits is taken away. -/
lemma stripped_of_ofNumeral_ofScaled {negative : Bool} {coeff scale : Nat} {o : Operands}
    (hlast : scale = 0 ∨ coeff % 10 ≠ 0)
    (h : Operands.ofNumeral (.ofScaled negative coeff scale) = .ok o) : o.v = o.w ∧ o.f = o.t := by
  obtain ⟨hdigits, hv⟩ := ofNumeral_eq_ok_iff.1 h
  rw [Numeral.digitsValue_ofScaled] at hdigits
  rw [Numeral.length_fraction_ofScaled] at hv
  have hf : o.v = 0 ∨ o.f % 10 ≠ 0 := by
    rcases Nat.eq_zero_or_pos o.v with hzero | hpos
    · exact .inl hzero
    · have hdvd : 10 ∣ 10 ^ o.v := dvd_pow_self 10 hpos.ne'
      rw [f, Nat.mod_mod_of_dvd _ hdvd, ← hdigits]
      exact .inr (hlast.resolve_left (hv ▸ hpos.ne'))
  rw [w, t, stripZeros_eq_self hf]
  exact ⟨rfl, rfl⟩

/-- The operands of a float have no zeros at the end of their fraction digits. -/
lemma stripped_of_ofBinary {x : Binary.Value} {o : Operands} (h : Operands.ofBinary x = .ok o) :
    o.v = o.w ∧ o.f = o.t := by
  cases x with
  | finite negative m =>
      obtain ⟨coeff, scale, hnumeral, hlast⟩ := m.exists_numeral negative
      rw [ofBinary, hnumeral] at h
      exact stripped_of_ofNumeral_ofScaled hlast h
  | infinite negative => exact nomatch h
  | notANumber => exact nomatch h

end Operands

/-! ### Every form of a number -/

namespace Number

/-- A float in one of the two formats. -/
def IsFloat : Number → Prop
  | text _ | integer _ _ _ | decimal _ => False
  | binary64 _ | binary32 _ => True

/-- A number that is neither infinite nor no number at all. -/
def IsFinite : Number → Prop
  | text _ | integer _ _ _ | decimal _ => True
  | binary64 bits => ∃ negative m, Binary.Format.binary64.decode bits.toNat = .finite negative m
  | binary32 bits => ∃ negative m, Binary.Format.binary32.decode bits.toNat = .finite negative m

/-- A number whose digits there is always room for. -/
def IsExact : Number → Prop
  | integer _ _ _ | decimal _ => True
  | text _ | binary64 _ | binary32 _ => False

/-- A number agrees with its text. -/
structure Consistent (x : Number) : Prop where
  /-- It has the operands of its text, or is refused for the reason that its text is. -/
  operands_eq : x.operands = Operands.ofText x.written
  /-- An integer or a decimal is not refused. -/
  exists_operands : x.IsExact → ∃ o, x.operands = .ok o
  /-- A float shows no fraction digits but those it needs. -/
  stripped : x.IsFloat → ∀ o, x.operands = .ok o → o.v = o.w ∧ o.f = o.t
  /-- What it is read as is written with the digits that count. -/
  read_back : ∀ o, x.operands = .ok o → Operands.ofText o.text = .ok o

/-- An integer, which is not taken apart, has the operands of its text. -/
lemma ofText_integer (x : Int) (h : x.natAbs < 2 ^ 96) :
    Operands.ofText (toString x) = .ok (.ofNat x.natAbs h) := by
  rw [← Numeral.text_ofScaled_int, Operands.ofText_text_numeral, Operands.ofNumeral_eq_ok_iff]
  exact ⟨Numeral.digitsValue_ofScaled .., Numeral.length_fraction_ofScaled ..⟩

/-- A decimal has the operands of its text. -/
lemma ofText_decimal (d : Decimal) : Operands.ofText d.text = .ok (.ofDecimal d) := by
  rw [Decimal.text, Operands.ofText_text_numeral, Operands.ofNumeral, Decimal.ofNumeral?_numeral]

/-- A finite float has the operands of its text. -/
lemma ofText_binary (negative : Bool) (m : Binary.Magnitude) :
    Operands.ofText (textOfBinary (.finite negative m)) = Operands.ofBinary (.finite negative m) :=
  Operands.ofText_text_numeral _

lemma operands_eq_ofText_written {x : Number} (h : x.IsFinite) :
    x.operands = Operands.ofText x.written := by
  cases x with
  | text s => rfl
  | integer x lower upper => exact (ofText_integer x _).symm
  | decimal d => exact (ofText_decimal d).symm
  | binary64 bits =>
      obtain ⟨negative, m, hm⟩ := h
      rw [operands, written, hm, ofText_binary]
  | binary32 bits =>
      obtain ⟨negative, m, hm⟩ := h
      rw [operands, written, hm, ofText_binary]

/-- **All forms of a number agree with its text**: an integer of any machine type, a decimal and a
finite float have the operands of what is written for them, or are refused alike. Integers and
decimals are never refused, floats show no zeros at the end of their fraction digits, and all
operands are read back from their text. -/
theorem consistent (x : Number) (h : x.IsFinite) : x.Consistent where
  operands_eq := operands_eq_ofText_written h
  exists_operands := by
    intro hexact
    cases x with
    | integer x lower upper => exact ⟨_, rfl⟩
    | decimal d => exact ⟨_, rfl⟩
    | text s => exact hexact.elim
    | binary64 bits => exact hexact.elim
    | binary32 bits => exact hexact.elim
  stripped := by
    intro hfloat o ho
    cases x with
    | binary64 bits => exact Operands.stripped_of_ofBinary ho
    | binary32 bits => exact Operands.stripped_of_ofBinary ho
    | text s => exact hfloat.elim
    | integer x lower upper => exact hfloat.elim
    | decimal d => exact hfloat.elim
  read_back := fun o _ => o.ofText_own_text

/-- The least and the greatest integer, a decimal of full width and scale, and one tenth in both
formats. -/
theorem consistent_extremes :
    Operands.ofText "-9223372036854775808" = .ok (.ofNat (2 ^ 63) (by decide)) ∧
    Operands.ofText "18446744073709551615" = .ok (.ofNat (2 ^ 64 - 1) (by decide)) ∧
    Operands.ofText "-7.9228162514264337593543950335" =
      .ok ⟨2 ^ 96 - 1, 28, by decide, by decide⟩ ∧
    (Number.binary64 0x3fb999999999999a).operands = Operands.ofText "0.1" ∧
    (Number.binary32 0x3dcccccd).operands = Operands.ofText "0.1" ∧
    Operands.ofText "0.1" = .ok ⟨1, 1, by decide, by decide⟩ := by
  have hleast := consistent (.integer (-2 ^ 63) (by decide) (by decide)) trivial
  have hgreatest := consistent (.integer (2 ^ 64 - 1) (by decide) (by decide)) trivial
  have hdecimal := consistent (.decimal ⟨-(2 ^ 96 - 1), 28, by decide, by decide⟩) trivial
  have hdouble := consistent (.binary64 0x3fb999999999999a) ⟨_, _, rfl⟩
  have hsingle := consistent (.binary32 0x3dcccccd) ⟨_, _, rfl⟩
  have hwritten : (Number.binary64 0x3fb999999999999a).written = "0.1" := by decide +kernel
  have hwritten' : (Number.binary32 0x3dcccccd).written = "0.1" := by decide +kernel
  refine ⟨?_, ?_, ?_, ?_, ?_, ?_⟩
  · exact hleast.operands_eq.symm
  · exact hgreatest.operands_eq.symm
  · exact hdecimal.operands_eq.symm
  · rw [hdouble.operands_eq, hwritten]
  · rw [hsingle.operands_eq, hwritten']
  · decide +kernel

end Number

end PluralRules
