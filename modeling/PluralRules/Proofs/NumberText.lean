import Mathlib.Data.List.DropRight
import PluralRules.Proofs.Reading.Rule
import PluralRules.Proofs.Value

/-!
The operands of a text, digit by digit.

What the operands of a text are is said of the digits that stand in it: no division, and no
taking of remainders. The zeros that end the fraction are dropped from the end of its digits.

* `Numeral.ofDigitChars_inj`, `Numeral.dropWhile_zero_eq_iff`: digits are known by their value and
  their number, or by their value up to leading zeros.
* `Numeral.stripZeros_ofDigitChars`: taking zeros away from a value is dropping them from its
  digits.
* `Decimal.Reads`: what is expected of a function that reads decimals. It may round what it has
  no room for; `Decimal.checked?_eq` says that the checks around it let nothing rounded pass.
* `Text.Trims`: a text without white space at its ends; `Text.trims_trim`.
* `Operands.Decompose`: operands against the digits of a numeral; `Operands.decompose_of_ofNumeral`.
* `Operands.Outcome`: what is made of a text, or why it is refused.
* `Operands.ofText_outcome`: every text has this outcome, and two accepted texts have equal operands
  exactly if their digits agree.
-/

namespace PluralRules

/-! ### Digits and their values -/

namespace Numeral

/-- The digit zero, as a test of characters. -/
def isZero (c : Char) : Bool :=
  c = '0'

variable {s t : List Char} {c d : Char}

lemma ofDigitChars_concat (s : List Char) (c : Char) :
    Nat.ofDigitChars 10 (s ++ [c]) 0 = 10 * Nat.ofDigitChars 10 s 0 + (c.toNat - '0'.toNat) := by
  rw [Nat.ofDigitChars_append, Nat.ofDigitChars_cons, Nat.ofDigitChars_nil]

lemma toNat_of_isDigit (h : c.isDigit) : '0'.toNat ≤ c.toNat ∧ c.toNat ≤ '0'.toNat + 9 := by
  simpa [Char.isDigit, Char.le_def, UInt32.le_iff_toNat_le] using h

lemma digit_inj (hc : c.isDigit) (hd : d.isDigit)
    (h : c.toNat - '0'.toNat = d.toNat - '0'.toNat) : c = d := by
  have hc' := toNat_of_isDigit hc
  have hd' := toNat_of_isDigit hd
  exact Char.toNat_inj.1 (by omega)

lemma digit_eq_zero_iff (h : c.isDigit) : c.toNat - '0'.toNat = 0 ↔ isZero c = true := by
  rw [isZero, decide_eq_true_iff]
  constructor
  · intro hzero
    exact digit_inj h (by decide) (by rw [hzero, Nat.sub_self])
  · rintro rfl
    exact Nat.sub_self _

lemma ofDigitChars_lt (h : ∀ c ∈ s, c.isDigit) : Nat.ofDigitChars 10 s 0 < 10 ^ s.length := by
  induction s using List.reverseRecOn with
  | nil => simp
  | append_singleton s c ih =>
      rw [List.forall_mem_append, List.forall_mem_singleton] at h
      have hs := ih h.1
      have hc := toNat_of_isDigit h.2
      rw [ofDigitChars_concat, List.length_append, List.length_singleton, pow_succ]
      omega

/-- Digits are known by their value and their number. -/
lemma ofDigitChars_inj (hs : ∀ c ∈ s, c.isDigit) (ht : ∀ c ∈ t, c.isDigit)
    (hlength : s.length = t.length)
    (hvalue : Nat.ofDigitChars 10 s 0 = Nat.ofDigitChars 10 t 0) : s = t := by
  induction s using List.reverseRecOn generalizing t with
  | nil => exact (List.length_eq_zero_iff.1 hlength.symm).symm
  | append_singleton s c ih =>
      rcases List.eq_nil_or_concat' t with rfl | ⟨t, d, rfl⟩
      · simp at hlength
      · rw [List.forall_mem_append, List.forall_mem_singleton] at hs ht
        rw [ofDigitChars_concat, ofDigitChars_concat] at hvalue
        have hc := toNat_of_isDigit hs.2
        have hd := toNat_of_isDigit ht.2
        have hlast : c = d := digit_inj hs.2 ht.2 (by omega)
        have hinit : s = t := ih hs.1 ht.1 (by simpa using hlength) (by omega)
        rw [hlast, hinit]

/-! ### Zeros at the ends -/

lemma ofDigitChars_dropWhile_zero (s : List Char) :
    Nat.ofDigitChars 10 (s.dropWhile isZero) 0 = Nat.ofDigitChars 10 s 0 := by
  induction s with
  | nil => rfl
  | cons c s ih =>
      by_cases h : isZero c
      · obtain rfl : c = '0' := by simpa [isZero] using h
        rw [List.dropWhile_cons_of_pos h, ih]
        rfl
      · rw [List.dropWhile_cons_of_neg h]

lemma dropWhile_zero_leftpad (n : Nat) (s : List Char) :
    (s.leftpad n '0').dropWhile isZero = s.dropWhile isZero :=
  List.dropWhile_append_of_pos fun c hc => by simp [isZero, List.eq_of_mem_replicate hc]

/-- Up to leading zeros, digits are known by their value. -/
theorem dropWhile_zero_eq_iff (hs : ∀ c ∈ s, c.isDigit) (ht : ∀ c ∈ t, c.isDigit) :
    s.dropWhile isZero = t.dropWhile isZero ↔
      Nat.ofDigitChars 10 s 0 = Nat.ofDigitChars 10 t 0 := by
  constructor
  · intro h
    rw [← ofDigitChars_dropWhile_zero s, h, ofDigitChars_dropWhile_zero]
  · intro hvalue
    -- Zeros in front make the two lists equally long.
    have hdigit : ∀ {r : List Char}, (∀ c ∈ r, c.isDigit) →
        ∀ c ∈ r.leftpad (max s.length t.length) '0', c.isDigit := by
      intro r hr c hc
      rcases List.mem_append.1 hc with hc | hc
      · rw [List.eq_of_mem_replicate hc]
        decide
      · exact hr c hc
    have hpad : s.leftpad (max s.length t.length) '0' = t.leftpad (max s.length t.length) '0' := by
      refine ofDigitChars_inj (hdigit hs) (hdigit ht) (by simp) ?_
      simpa [List.leftpad, Nat.ofDigitChars_append] using hvalue
    rw [← dropWhile_zero_leftpad (max s.length t.length) s, hpad, dropWhile_zero_leftpad]

/-- Taking zeros away from the value of fraction digits is dropping them from the end of the
digits. -/
theorem stripZeros_ofDigitChars (h : ∀ c ∈ s, c.isDigit) :
    stripZeros (Nat.ofDigitChars 10 s 0) s.length =
      (Nat.ofDigitChars 10 (s.rdropWhile isZero) 0, (s.rdropWhile isZero).length) := by
  induction s using List.reverseRecOn with
  | nil => rfl
  | append_singleton s c ih =>
      rw [List.forall_mem_append, List.forall_mem_singleton] at h
      have hc := toNat_of_isDigit h.2
      rw [ofDigitChars_concat, List.length_append, List.length_singleton, stripZeros]
      by_cases hzero : isZero c
      · have hdigit := (digit_eq_zero_iff h.2).2 hzero
        rw [hdigit, Nat.add_zero, if_pos (Nat.mul_mod_right 10 _),
          Nat.mul_div_cancel_left _ (by decide), ih h.1, List.rdropWhile_concat_pos _ _ _ hzero]
      · have hdigit := mt (digit_eq_zero_iff h.2).1 hzero
        rw [if_neg (by omega), List.rdropWhile_concat_neg _ _ _ hzero, ofDigitChars_concat,
          List.length_append, List.length_singleton]

end Numeral

/-! ### Readers of decimals -/

namespace Decimal

/-- What a reader of decimals does. A numeral that fits is read with its value and with all its
fraction digits. If its digits are too large, some of them are lost behind the point, or it is not
read at all. -/
structure Reads (read : List Char → Option Decimal) : Prop where
  keeps : ∀ x : Numeral, x.digitsValue < 2 ^ 96 → x.fraction.length ≤ 28 →
    ∃ d, read x.chars = some d ∧
      d.coeff = (if x.negative then -(x.digitsValue : Int) else x.digitsValue) ∧
      d.scale = x.fraction.length
  loses : ∀ (x : Numeral) (d : Decimal), 2 ^ 96 ≤ x.digitsValue → read x.chars = some d →
    d.scale < x.fraction.length

/-- What is read of a numeral, if it does not have too many fraction digits and none was lost. -/
def checked? (read : List Char → Option Decimal) (x : Numeral) : Option Decimal :=
  if 28 < x.fraction.length then none
  else
    match read x.chars with
    | some d => if d.scale = x.fraction.length then some d else none
    | none => none

variable {read : List Char → Option Decimal}

/-- Once it is checked, no reader rounds: what passes is the decimal that the numeral writes. -/
theorem checked?_eq (h : Reads read) (x : Numeral) : checked? read x = ofNumeral? x := by
  rw [checked?, ofNumeral?]
  by_cases hfits : x.digitsValue < 2 ^ 96 ∧ x.fraction.length ≤ 28
  · obtain ⟨d, hd, hcoeff, hscale⟩ := h.keeps x hfits.1 hfits.2
    rw [if_neg (by omega), hd, dif_pos hfits]
    simp only [hscale, if_true]
    exact congrArg some (Decimal.ext hcoeff hscale)
  · rw [dif_neg hfits]
    split_ifs with hlength
    · rfl
    · cases hd : read x.chars with
      | none => rfl
      | some d => exact if_neg (h.loses x d (by omega) hd).ne

/-- A reader that never rounds. -/
def ofChars? (s : List Char) : Option Decimal :=
  (Numeral.ofChars? s).bind ofNumeral?

lemma ofChars?_chars (x : Numeral) : ofChars? x.chars = ofNumeral? x := by
  rw [ofChars?, Numeral.ofChars?_eq_some_iff.2 rfl, Option.bind_some]

lemma reads_ofChars? : Reads ofChars? where
  keeps := by
    intro x hvalue hlength
    rw [ofChars?_chars, ofNumeral?, dif_pos ⟨hvalue, hlength⟩]
    exact ⟨_, rfl, rfl, rfl⟩
  loses := by
    intro x d hvalue hd
    rw [ofChars?_chars, ofNumeral?, dif_neg (by omega)] at hd
    cases hd

end Decimal

/-! ### White space at the ends -/

/-- A text is another one with white space at its ends taken away. -/
structure Text.Trims (s u : List Char) : Prop where
  /-- Only white space is taken away. -/
  exists_ends : ∃ before after, s = before ++ u ++ after ∧ (∀ c ∈ before, isSpace c) ∧
    ∀ c ∈ after, isSpace c
  /-- None is left in front. -/
  head : ∀ c ∈ u.head?, isSpace c = false
  /-- None is left behind. -/
  last : ∀ c ∈ u.getLast?, isSpace c = false

lemma Text.trim_eq (s : List Char) : trim s = (s.dropWhile isSpace).rdropWhile isSpace :=
  rfl

theorem Text.trims_trim (s : List Char) : Trims s (trim s) where
  exists_ends := by
    refine ⟨s.takeWhile isSpace, (s.dropWhile isSpace).rtakeWhile isSpace, ?_, ?_, ?_⟩
    · rw [trim_eq, List.append_assoc, List.rdropWhile_append_rtakeWhile,
        List.takeWhile_append_dropWhile]
    · exact fun c hc => List.mem_takeWhile_imp hc
    · exact fun c hc => List.mem_rtakeWhile_imp hc
  head := by
    intro c hc
    obtain ⟨rest, hrest⟩ := List.rdropWhile_prefix isSpace (s.dropWhile isSpace)
    have hhead : (s.dropWhile isSpace).head? = some c := by
      rw [← hrest, ← trim_eq, List.head?_append, Option.mem_def.1 hc]
      rfl
    have hnot := List.head?_dropWhile_not isSpace s
    rwa [hhead] at hnot
  last := by
    intro c hc
    obtain ⟨hne, rfl⟩ := List.mem_getLast?_eq_getLast hc
    exact Bool.eq_false_iff.2 (List.rdropWhile_last_not isSpace _ hne)

/-- There is one way to take white space away from both ends of a text. -/
lemma Text.Trims.eq_trim {s u : List Char} (h : Trims s u) : u = trim s := by
  obtain ⟨before, after, rfl, hbefore, hafter⟩ := h.exists_ends
  have hend : ∀ c ∈ u.reverse.head?, isSpace c = false := by
    rw [List.head?_reverse]
    exact h.last
  have hfront : (u ++ after).dropWhile isSpace = if u = [] then [] else u ++ after := by
    cases u with
    | nil => simpa using List.dropWhile_eq_nil_iff.2 hafter
    | cons c u => simp [h.head c rfl]
  have hback : (u ++ after).rdropWhile isSpace = u := by
    rw [List.rdropWhile, List.reverse_append,
      List.dropWhile_append_of_pos fun c hc => hafter c (List.mem_reverse.1 hc)]
    cases hu : u.reverse with
    | nil => simpa using hu.symm
    | cons c v =>
        rw [List.dropWhile_cons_of_neg (by simp [hend c (by simp [hu])]), ← hu,
          List.reverse_reverse]
  rw [trim_eq, List.append_assoc, List.dropWhile_append_of_pos hbefore, hfront]
  split
  · assumption
  · exact hback.symm

/-! ### Outcomes -/

namespace Operands

/-- Operands are those of a numeral, digit by digit; its sign makes no difference. -/
structure Decompose (x : Numeral) (o : Operands) : Prop where
  i_eq : o.i = Nat.ofDigitChars 10 x.whole 0
  v_eq : o.v = x.fraction.length
  f_eq : o.f = Nat.ofDigitChars 10 x.fraction 0
  w_eq : o.w = (x.fraction.rdropWhile Numeral.isZero).length
  t_eq : o.t = Nat.ofDigitChars 10 (x.fraction.rdropWhile Numeral.isZero) 0
  n_eq : o.n.value = o.i + o.f / 10 ^ o.v

/-- What is made of a text `s` that is `u` once it is trimmed. -/
inductive Outcome (s : String) (u : List Char) : Except NumberError Operands → Prop where
  /-- It is no numeral: the report quotes the whole text. -/
  | malformed (h : ∀ x : Numeral, u ≠ x.chars) : Outcome s u (.error (.malformed s))
  /-- It has more digits than operands hold: the report quotes the trimmed text. -/
  | outOfRange {x : Numeral} (h : u = x.chars)
      (size : 28 < x.fraction.length ∨ 2 ^ 96 ≤ x.digitsValue) :
      Outcome s u (.error (.outOfRange (String.ofList u)))
  /-- Its operands are those of its digits. -/
  | exact {x : Numeral} {o : Operands} (h : u = x.chars) (length_le : x.fraction.length ≤ 28)
      (value_lt : x.digitsValue < 2 ^ 96) (decompose : Decompose x o) : Outcome s u (.ok o)

/-- The operands of a text, whose numeral is given to a reader of decimals. -/
def ofTextBy (read : List Char → Option Decimal) (s : String) : Except NumberError Operands :=
  match Numeral.ofChars? (Text.trim s.toList) with
  | some x =>
      match Decimal.checked? read x with
      | some d => .ok (.ofDecimal d)
      | none => .error (.outOfRange x.text)
  | none => .error (.malformed s)

variable {read : List Char → Option Decimal} {x y : Numeral} {o p : Operands}

/-- Which reader of decimals is used makes no difference. -/
lemma ofTextBy_eq (hread : Decimal.Reads read) (s : String) :
    ofTextBy read s = Operands.ofText s := by
  rw [ofTextBy, Operands.ofText]
  cases Numeral.ofChars? (Text.trim s.toList) with
  | none => rfl
  | some x =>
      simp only [Decimal.checked?_eq hread x]
      rfl

/-- A number is its integer digits and the fraction that its fraction digits stand for. -/
lemma n_value (o : Operands) : o.n.value = o.i + o.f / 10 ^ o.v := by
  have hpow : (10 ^ o.v : ℚ) ≠ 0 := by positivity
  have hdigits : (o.digits : ℚ) = o.i * 10 ^ o.v + o.f := by
    exact_mod_cast o.i_mul_add_f.symm
  calc o.n.value = o.digits / 10 ^ o.v := by simp [n, Decimal.value, Decimal.unit]
    _ = o.i + o.f / 10 ^ o.v := by rw [hdigits, add_div, mul_div_cancel_right₀ _ hpow]

/-- Operands are known by their integer digits and their fraction digits. -/
lemma eq_iff : o = p ↔ o.i = p.i ∧ o.v = p.v ∧ o.f = p.f := by
  constructor
  · rintro rfl
    exact ⟨rfl, rfl, rfl⟩
  · rintro ⟨hi, hv, hf⟩
    refine Operands.ext ?_ hv
    rw [← o.i_mul_add_f, ← p.i_mul_add_f, hi, hv, hf]

/-- The operands that are made of a numeral are those of its digits. -/
lemma decompose_of_ofNumeral (h : Operands.ofNumeral x = .ok o) : Decompose x o := by
  obtain ⟨hdigits, hv⟩ := ofNumeral_eq_ok_iff.1 h
  have hsplit : o.digits = 10 ^ o.v * Nat.ofDigitChars 10 x.whole 0 +
      Nat.ofDigitChars 10 x.fraction 0 := by
    rw [← hdigits, Numeral.digitsValue, Nat.ofDigitChars_append,
      Nat.ofDigitChars_eq_ofDigitChars_zero, hv]
  have hlt : Nat.ofDigitChars 10 x.fraction 0 < 10 ^ o.v := by
    rw [← hv]
    exact Numeral.ofDigitChars_lt x.isDigit_fraction
  have hi : o.i = Nat.ofDigitChars 10 x.whole 0 := by
    rw [i, hsplit, Nat.mul_add_div (Nat.pow_pos (by decide)), Nat.div_eq_of_lt hlt, Nat.add_zero]
  have hf : o.f = Nat.ofDigitChars 10 x.fraction 0 := by
    rw [f, hsplit, Nat.mul_add_mod, Nat.mod_eq_of_lt hlt]
  have hstrip := Numeral.stripZeros_ofDigitChars x.isDigit_fraction
  rw [← hf, hv] at hstrip
  exact ⟨hi, hv.symm, hf, congrArg Prod.snd hstrip, congrArg Prod.fst hstrip, o.n_value⟩

/-- Operands of two numerals are equal exactly if their digits agree, up to zeros in front. -/
lemma Decompose.eq_iff (ho : Decompose x o) (hp : Decompose y p) :
    o = p ↔ x.whole.dropWhile Numeral.isZero = y.whole.dropWhile Numeral.isZero ∧
      x.fraction = y.fraction := by
  rw [Operands.eq_iff, Numeral.dropWhile_zero_eq_iff x.isDigit_whole y.isDigit_whole, ho.i_eq,
    hp.i_eq, ho.v_eq, hp.v_eq, ho.f_eq, hp.f_eq]
  refine and_congr_right fun _ => ⟨fun h => ?_, fun h => ?_⟩
  · exact Numeral.ofDigitChars_inj x.isDigit_fraction y.isDigit_fraction h.1 h.2
  · rw [h]
    exact ⟨rfl, rfl⟩

/-- A numeral has operands, or too many digits for them. -/
lemma ofNumeral_cases (x : Numeral) :
    ((∃ o, Operands.ofNumeral x = .ok o) ∧ x.digitsValue < 2 ^ 96 ∧ x.fraction.length ≤ 28) ∨
      (Operands.ofNumeral x = .error (.outOfRange x.text) ∧
        (28 < x.fraction.length ∨ 2 ^ 96 ≤ x.digitsValue)) := by
  rw [Operands.ofNumeral, Decimal.ofNumeral?]
  by_cases hfits : x.digitsValue < 2 ^ 96 ∧ x.fraction.length ≤ 28
  · rw [dif_pos hfits]
    exact .inl ⟨⟨_, rfl⟩, hfits⟩
  · rw [dif_neg hfits]
    exact .inr ⟨rfl, by omega⟩

/-- The text of a number is trimmed, and what is left has its outcome. -/
lemma outcome_ofText (s : String) :
    Outcome s (Text.trim s.toList) (Operands.ofText s) := by
  rw [Operands.ofText]
  cases hread : Numeral.ofChars? (Text.trim s.toList) with
  | none =>
      refine .malformed fun x hx => ?_
      rw [Numeral.ofChars?_eq_some_iff.2 hx] at hread
      exact nomatch hread
  | some x =>
      have hx := Numeral.ofChars?_eq_some_iff.1 hread
      rcases ofNumeral_cases x with ⟨⟨o, ho⟩, hvalue, hlength⟩ | ⟨herror, hsize⟩
      · simp only [ho]
        exact .exact hx hlength hvalue (decompose_of_ofNumeral ho)
      · simp only [herror, Numeral.text, ← hx]
        exact .outOfRange hx hsize

/-- The digits of an accepted text. -/
lemma decompose_of_ofText {s : String} (hx : Text.Trims s.toList x.chars)
    (h : Operands.ofText s = .ok o) : Decompose x o := by
  rw [Operands.ofText, ← hx.eq_trim, Numeral.ofChars?_eq_some_iff.2 rfl] at h
  exact decompose_of_ofNumeral h

/-- **Numbers are decomposed exactly or refused**: with any reader of decimals, every text, once
white space is taken away from its ends, has its outcome, which is told by its digits alone. Two
accepted texts have equal operands if and only if their whole digits agree up to zeros in front and
their fraction digits are the same. -/
theorem ofText_outcome (hread : Decimal.Reads read) (s t : String) :
    ofTextBy read s = Operands.ofText s ∧
    (∃ u, Text.Trims s.toList u ∧ Outcome s u (ofTextBy read s)) ∧
    ∀ (x y : Numeral) (o p : Operands), Text.Trims s.toList x.chars → Text.Trims t.toList y.chars →
      ofTextBy read s = .ok o → ofTextBy read t = .ok p →
      (o = p ↔ x.whole.dropWhile Numeral.isZero = y.whole.dropWhile Numeral.isZero ∧
        x.fraction = y.fraction) := by
  rw [ofTextBy_eq hread s, ofTextBy_eq hread t]
  refine ⟨rfl, ⟨_, Text.trims_trim s.toList, outcome_ofText s⟩, fun x y o p hx hy ho hp => ?_⟩
  exact (decompose_of_ofText hx ho).eq_iff (decompose_of_ofText hy hp)

/-- White space at the ends, a sign and zeros in front make no difference; a zero behind does. -/
theorem ofText_outcome_zeros :
    Decimal.Reads Decimal.ofChars? ∧ ∃ o p q, ofTextBy Decimal.ofChars? " 007.50" = .ok o ∧
      ofTextBy Decimal.ofChars? "-7.50\u3000" = .ok p ∧
      ofTextBy Decimal.ofChars? "7.5" = .ok q ∧ o = p ∧ p ≠ q := by
  have hread := Decimal.reads_ofChars?
  have ho : ofTextBy Decimal.ofChars? " 007.50" = .ok ⟨750, 2, by decide, by decide⟩ := by
    decide +kernel
  have hp : ofTextBy Decimal.ofChars? "-7.50\u3000" = .ok ⟨750, 2, by decide, by decide⟩ := by
    decide +kernel
  have hq : ofTextBy Decimal.ofChars? "7.5" = .ok ⟨75, 1, by decide, by decide⟩ := by
    decide +kernel
  let x : Numeral := ⟨false, ['0', '0', '7'], ['5', '0'], by simp, by simp, by simp⟩
  let y : Numeral := ⟨true, ['7'], ['5', '0'], by simp, by simp, by simp⟩
  let z : Numeral := ⟨false, ['7'], ['5'], by simp, by simp, by simp⟩
  have htrims (s : String) (x : Numeral) (h : Text.trim s.toList = x.chars) :
      Text.Trims s.toList x.chars := h ▸ Text.trims_trim s.toList
  have hx := htrims " 007.50" x rfl
  have hy := htrims "-7.50\u3000" y rfl
  have hz := htrims "7.5" z rfl
  exact ⟨hread, _, _, _, ho, hp, hq,
    ((ofText_outcome hread _ _).2.2 x y _ _ hx hy ho hp).2 (by decide),
    mt ((ofText_outcome hread _ _).2.2 y z _ _ hy hz hp hq).1 (by decide)⟩

end Operands

end PluralRules
