import PluralRules.Proofs.Grammar.Rule
import PluralRules.Proofs.Reading.Basic
import PluralRules.Reading.Relation

/-!
Reading relations, against the grammar.

Each reader has two lemmas. What it read spells its value (`exists_integer`, `Range.exists_read`,
`Relation.exists_read` and so on), and a text that spells a value is read as it, if what comes
behind neither adds to it nor was to be a part of it (`integer_eq_ok`, `Range.read_eq_ok`,
`Relation.read_eq_ok` and so on). What comes behind is told by its first character behind
blanks, `Follows`.
-/

namespace PluralRules

open Grammar Text

/-! ### Integers -/

namespace Reading

/-- What may come behind the digits of an integer: no more digits, and no point with a digit. -/
structure EndsInteger (rest : List Char) : Prop where
  not_isDigit : ∀ c ∈ rest.head?, c.isDigit = false
  not_startsFraction : startsFraction rest = false

namespace EndsInteger

variable {next rest : List Char}

lemma of_head (h : ∀ c ∈ rest.head?, c.isDigit = false ∧ c ≠ '.') : EndsInteger rest := by
  refine ⟨fun c hc => (h c hc).1, ?_⟩
  unfold startsFraction
  split
  · exact absurd rfl (h '.' (by simp)).2
  · rfl

lemma not_isDigit_of_isBlank {c : Char} (h : isBlank c = true) : c.isDigit = false ∧ c ≠ '.' := by
  rcases eq_of_isBlank h with rfl | rfl | rfl | rfl <;> decide

lemma of_follows (h : Follows next rest) (hnext : ∀ c ∈ next, c.isDigit = false ∧ c ≠ '.') :
    EndsInteger rest :=
  of_head fun c hc => (h.head hc).elim not_isDigit_of_isBlank (hnext c)

/-- Behind the lower bound of a range, two points. -/
lemma points {t : List Char} (h : Around ".." t) (rest : List Char) : EndsInteger (t ++ rest) := by
  obtain ⟨hb, -⟩ := h
  rename_i b c
  cases b with
  | nil => exact ⟨by simp, by simp [startsFraction]⟩
  | cons a b => exact of_head (by simpa using not_isDigit_of_isBlank (hb a (by simp)))

end EndsInteger

variable {role : ValueRole} {s t rest : List Char} {x : UInt64}

lemma exists_integer (h : integer role s = .ok (x, rest)) : ∃ t, Integer t x ∧ s = t ++ rest := by
  rw [integer] at h
  simp only at h
  split_ifs at h with hnil hpoint hsize
  · exact absurd h stop_ne_ok
  · exact absurd h stop_ne_ok
  · obtain ⟨hx, rfl⟩ : UInt64.ofNat (Nat.ofDigitChars 10 (s.takeWhile Char.isDigit) 0) = x ∧
        s.dropWhile Char.isDigit = rest := by simpa using h
    refine ⟨s.takeWhile Char.isDigit, ⟨hnil, fun c => Numeral.isDigit_of_mem_takeWhile, ?_⟩,
      List.takeWhile_append_dropWhile.symm⟩
    rw [← hx, UInt64.toNat_ofNat_of_lt' hsize]
  · exact absurd h stop_ne_ok

lemma integer_eq_ok (h : Integer t x) (hrest : EndsInteger rest) :
    integer role (t ++ rest) = .ok (x, rest) := by
  have htake : (t ++ rest).takeWhile Char.isDigit = t := by
    rw [List.takeWhile_append_of_pos h.isDigit]
    cases rest with
    | nil => simp
    | cons c rest => simp [hrest.not_isDigit c (by simp)]
  have hdrop : (t ++ rest).dropWhile Char.isDigit = rest := by
    rw [List.dropWhile_append_of_pos h.isDigit]
    cases rest with
    | nil => simp
    | cons c rest => simp [hrest.not_isDigit c (by simp)]
  have hsize : Nat.ofDigitChars 10 t 0 < 2 ^ 64 := by
    rw [h.value]
    exact x.toNat_lt
  simp only [integer, htake, hdrop]
  rw [if_neg h.ne_nil, if_neg (by simp [hrest.not_startsFraction]), if_pos hsize, h.value,
    UInt64.ofNat_toNat]

lemma isAlphanum_of_isDigit {c : Char} (h : c.isDigit) : c.isAlphanum := by
  simp [Char.isAlphanum, h]

lemma startsAlphanumeric_integer (h : Integer t x) (rest : List Char) :
    startsAlphanumeric (t ++ rest) = true := by
  cases t with
  | nil => exact absurd rfl h.ne_nil
  | cons c t => exact isAlphanum_of_isDigit (h.isDigit c (by simp))

lemma notMem_head?_integer (h : Integer t x) (rest : List Char) {c : Char}
    (hc : c.isDigit = false) : c ∉ (t ++ rest).head? := by
  cases t with
  | nil => exact absurd rfl h.ne_nil
  | cons d t =>
      intro hd
      obtain rfl : d = c := by simpa using hd
      exact absurd (h.isDigit d (by simp)) (by simp [hc])

end Reading

open Reading

/-! ### Moduli and ranges -/

lemma Modulus.exists_read {s rest : List Char} {m : Modulus} (h : Modulus.read s = .ok (m, rest)) :
    ∃ t, Modulus.Spells t m ∧ s = t ++ rest := by
  simp only [Modulus.read, bind_eq_ok, Prod.exists] at h
  obtain ⟨x, u, hx, h⟩ := h
  obtain ⟨t, ht, hs⟩ := exists_integer hx
  rw [Modulus.ofValue?] at h
  split_ifs at h with hzero
  · exact absurd h stop_ne_ok
  · obtain ⟨rfl, rfl⟩ : ⟨x, hzero⟩ = m ∧ u = rest := by simpa [pure_eq_ok] using h
    exact ⟨t, ht, hs⟩

lemma Modulus.read_eq_ok {t rest : List Char} {m : Modulus} (h : Modulus.Spells t m)
    (hrest : EndsInteger rest) : Modulus.read (t ++ rest) = .ok (m, rest) := by
  simp only [Modulus.read, bind_eq_ok, Prod.exists]
  refine ⟨m.val, rest, integer_eq_ok h hrest, ?_⟩
  rw [Modulus.ofValue?, dif_neg m.ne_zero]
  rfl

namespace Range

lemma readUpper_eq_ok_iff {low high : UInt64} {s rest : List Char} :
    readUpper low s = .ok (high, rest) ↔
      integer .upperBound s = .ok (high, rest) ∧ low ≤ high := by
  simp only [readUpper, bind_eq_ok, Prod.exists]
  constructor
  · rintro ⟨x, u, hx, h⟩
    split_ifs at h with hle
    · obtain ⟨rfl, rfl⟩ : x = high ∧ u = rest := by simpa [pure_eq_ok] using h
      exact ⟨hx, hle⟩
    · exact absurd h stop_ne_ok
  · rintro ⟨hhigh, hle⟩
    exact ⟨high, rest, hhigh, by rw [if_pos hle]; rfl⟩

/-- Bounds that have been read make a range, so that it is never the one of the lower bound
instead. -/
lemma ofBounds?_of_readUpper {low high : UInt64} {s rest : List Char}
    (h : readUpper low s = .ok (high, rest)) :
    ∃ hle : low ≤ high, ofBounds? low high = some ⟨low, high, hle⟩ := by
  obtain ⟨-, hle⟩ := readUpper_eq_ok_iff.1 h
  exact ⟨hle, by rw [ofBounds?, dif_pos hle]⟩

lemma exists_read {s rest : List Char} {r : Range} (h : Range.read s = .ok (r, rest)) :
    ∃ t, Range.Spells t r ∧ s = t ++ rest := by
  simp only [Range.read, bind_eq_ok, Prod.exists] at h
  obtain ⟨low, u, hlow, h⟩ := h
  obtain ⟨t, ht, rfl⟩ := exists_integer hlow
  cases hpoints : between? (literal? "..") u with
  | none =>
      obtain ⟨rfl, rfl⟩ : single low = r ∧ u = rest := by simpa [hpoints, pure_eq_ok] using h
      exact ⟨t, .single ht, rfl⟩
  | some v =>
      simp only [hpoints, bind_eq_ok, Prod.exists] at h
      obtain ⟨high, w, hhigh, h⟩ := h
      obtain ⟨hle, hbounds⟩ := ofBounds?_of_readUpper hhigh
      obtain ⟨rfl, rfl⟩ : ⟨low, high, hle⟩ = r ∧ w = rest := by
        simpa [hbounds, pure_eq_ok] using h
      obtain ⟨p, hp, rfl, -⟩ := exists_around hpoints
      obtain ⟨q, hq, rfl⟩ := exists_integer (readUpper_eq_ok_iff.1 hhigh).1
      exact ⟨_, .span ht hp hq hle, by simp only [List.append_assoc]⟩

lemma startsAlphanumeric_of_spells {t : List Char} {r : Range} (h : Range.Spells t r)
    (rest : List Char) : startsAlphanumeric (t ++ rest) = true := by
  cases h with
  | single h => exact startsAlphanumeric_integer h rest
  | span h _ _ _ =>
      rw [List.append_assoc, List.append_assoc]
      exact startsAlphanumeric_integer h _

lemma read_eq_ok {t rest : List Char} {r : Range} (h : Range.Spells t r)
    (hrest : Follows [',', '@', 'a', 'o'] rest) : Range.read (t ++ rest) = .ok (r, rest) := by
  have hend : EndsInteger rest := .of_follows hrest (by simp)
  simp only [Range.read, bind_eq_ok, Prod.exists]
  cases h with
  | single h =>
      refine ⟨_, rest, integer_eq_ok h hend, ?_⟩
      rw [between?_eq_none (d := '.') rfl hrest (by simp)]
      rfl
  | @span t p q low high ht hp hq hle =>
      rw [List.append_assoc, List.append_assoc]
      refine ⟨low, _, integer_eq_ok ht (.points hp _), ?_⟩
      rw [between?_append (d := '.') rfl rfl hp
        (dropBlanks_eq_self (startsAlphanumeric_integer hq rest))]
      simp only [bind_eq_ok, Prod.exists]
      refine ⟨high, rest, readUpper_eq_ok_iff.2 ⟨integer_eq_ok hq hend, hle⟩, ?_⟩
      rw [Range.ofBounds?, dif_pos hle]
      rfl

lemma exists_readList {s rest : List Char} {rs : List Range}
    (h : Range.readList s = .ok (rs, rest)) : ∃ t, Range.SpellsList t rs ∧ s = t ++ rest := by
  refine exists_chain (f := id) (fun _ _ _ h => exists_read h) ?_ h
  intro s u r rest hcomma hr
  obtain ⟨t, ht, rfl, -⟩ := exists_around hcomma
  obtain ⟨v, hv, rfl⟩ := exists_read hr
  exact ⟨t, v, ht, hv, by simp only [List.append_assoc]⟩

lemma startsAlphanumeric_of_spellsList {t : List Char} {rs : List Range}
    (h : Range.SpellsList t rs) (rest : List Char) : startsAlphanumeric (t ++ rest) = true := by
  obtain ⟨h, -⟩ := h
  rw [List.append_assoc]
  exact startsAlphanumeric_of_spells h _

lemma readList_eq_ok {t rest : List Char} {rs : List Range} (h : Range.SpellsList t rs)
    (hrest : Follows ['@', 'a', 'o'] rest) : Range.readList (t ++ rest) = .ok (rs, rest) := by
  refine chain_eq_ok (b := []) ?_ ?_ (fun _ _ _ h hrest => read_eq_ok h hrest) ?_ h
    (hrest.mono (by decide)) (between?_eq_none (d := ',') rfl hrest (by simp))
  · exact fun _ h => h.ne_nil (by simp)
  · exact fun _ _ h => h.follows (d := ',') rfl rfl (by simp) _
  · intro t v r rest hcomma hr hrest
    exact ⟨_, between?_append (d := ',') rfl rfl hcomma
      (dropBlanks_eq_self (startsAlphanumeric_of_spells hr rest)), read_eq_ok hr hrest⟩

end Range

/-! ### Operands with a modulus -/

/-- An operand is its letter, with no letter or digit behind it. -/
lemma Operand.read_eq_ok_iff {s rest : List Char} {o : Operand} :
    Operand.read s = .ok (o, rest) ↔
      s = o.symbol :: rest ∧ startsAlphanumeric rest = false := by
  constructor
  · intro h
    cases s with
    | nil => exact absurd h stop_ne_ok
    | cons c s =>
        cases hc : Operand.ofSymbol? c with
        | none => simp [Operand.read, hc, stop] at h
        | some p =>
            simp only [Operand.read, hc] at h
            split_ifs at h with hs
            · exact absurd h stop_ne_ok
            · obtain ⟨rfl, rfl⟩ : p = o ∧ s = rest := by simpa using h
              exact ⟨by rw [Operand.ofSymbol?_eq_some_iff.1 hc], by simpa using hs⟩
  · rintro ⟨rfl, h⟩
    simp [Operand.read, h]

namespace Modulus

variable {s u rest : List Char} {m : Modulus} {m? : Option Modulus}

/-- A mark that was found stands there, if a digit comes behind it. -/
lemma exists_mark (h : Modulus.mark? s = some u) (hu : startsAlphanumeric u = true) :
    ∃ t, Modulus.SpellsMark t ∧ s = t ++ u := by
  obtain ⟨v, hv, rfl⟩ := Option.map_eq_some_iff.1 h
  obtain ⟨b, hb, hs⟩ := exists_blanks s
  rcases (Option.orElse_eq_some _ _ _).1 hv with hmod | ⟨-, hpercent⟩
  · obtain ⟨hword, hend⟩ := keyword?_eq_some_iff.1 hmod
    obtain ⟨c, hc, hv⟩ := exists_gap hend hu
    refine ⟨_, .mod hb hc, ?_⟩
    rw [List.append_assoc, ← hv, List.append_assoc, ← hword, ← hs]
  · have hsign : between? (literal? "%") s = some (dropBlanks v) := by
      rw [between?, hpercent, Option.map_some]
    obtain ⟨t, ht, hs, -⟩ := exists_around hsign
    exact ⟨t, .percent ht, hs⟩

lemma mark?_append {t : List Char} (h : Modulus.SpellsMark t) (hu : dropBlanks u = u) :
    Modulus.mark? (t ++ u) = some u := by
  cases h with
  | @mod b c hb hc =>
      have hword : keyword? "mod" ("mod".toList ++ (c ++ u)) = some (c ++ u) :=
        keyword?_append (startsAlphanumeric_gap hc u)
      rw [mark?, between?, List.append_assoc, List.append_assoc, dropBlanks_append hb,
        dropBlanks_word_append (d := 'm') rfl rfl, hword]
      simp [dropBlanks_append hc.blanks, hu]
  | percent h =>
      obtain ⟨hb, hc⟩ := h
      rw [mark?, between?, List.append_assoc, List.append_assoc, dropBlanks_append hb,
        dropBlanks_word_append (d := '%') rfl rfl,
        keyword?_eq_none (d := 'm') rfl (by simp), literal?_append]
      simp [dropBlanks_append hc, hu]

lemma mark?_eq_none {next : List Char} (h : Follows next s) (hm : 'm' ∉ next) (hp : '%' ∉ next) :
    Modulus.mark? s = none := by
  rw [mark?, between?, keyword?_eq_none (d := 'm') rfl fun hc => hm (h 'm' hc),
    literal?_eq_none (d := '%') rfl fun hc => hp (h '%' hc)]
  rfl

end Modulus

namespace Expr

variable {s rest : List Char} {x : Expr}

lemma exists_read (h : Expr.read s = .ok (x, rest)) :
    ∃ t, Modulus.SpellsOptional t x.modulus? ∧ s = x.operand.symbol :: (t ++ rest) ∧
      startsAlphanumeric (t ++ rest) = false := by
  simp only [Expr.read, bind_eq_ok, Prod.exists] at h
  obtain ⟨o, u, ho, h⟩ := h
  obtain ⟨rfl, hu⟩ := Operand.read_eq_ok_iff.1 ho
  cases hmark : Modulus.mark? u with
  | none =>
      obtain ⟨rfl, rfl⟩ : ⟨o, none⟩ = x ∧ u = rest := by simpa [hmark, pure_eq_ok] using h
      exact ⟨[], .absent, rfl, hu⟩
  | some v =>
      simp only [hmark, bind_eq_ok, Prod.exists, pure_eq_ok, Prod.mk.injEq] at h
      obtain ⟨m, w, hm, rfl, rfl⟩ := h
      obtain ⟨q, hq, rfl⟩ := Modulus.exists_read hm
      obtain ⟨t, ht, rfl⟩ := Modulus.exists_mark hmark (startsAlphanumeric_integer hq w)
      rw [← List.append_assoc] at hu ⊢
      exact ⟨t ++ q, .present ht hq, rfl, hu⟩

lemma read_eq_ok {o : Operand} {t : List Char} {m? : Option Modulus}
    (h : Modulus.SpellsOptional t m?) (hrest : Follows ['i', '=', '!', 'n', 'w'] rest)
    (hapart : startsAlphanumeric (t ++ rest) = false) :
    Expr.read (o.symbol :: (t ++ rest)) = .ok (⟨o, m?⟩, rest) := by
  simp only [Expr.read, bind_eq_ok, Prod.exists]
  refine ⟨o, _, Operand.read_eq_ok_iff.2 ⟨rfl, hapart⟩, ?_⟩
  cases h with
  | absent =>
      rw [List.nil_append, Modulus.mark?_eq_none hrest (by simp) (by simp)]
      rfl
  | @present s t m hs hm =>
      have hread := Modulus.read_eq_ok hm (.of_follows hrest (by simp))
      rw [List.append_assoc,
        Modulus.mark?_append hs (dropBlanks_eq_self (startsAlphanumeric_integer hm rest))]
      simp only [hread]
      rfl

end Expr

/-! ### Comparisons -/

namespace Reading

variable {s t u : List Char} {negated : Bool}

/-- A word `not` that was found, or found missing, stands there or is missing, if a letter or
digit comes behind it. -/
lemma exists_negation (h : skipNot s = (negated, u)) (hs : dropBlanks s = s)
    (hu : startsAlphanumeric (dropBlanks u) = true) :
    ∃ t, Negation t negated ∧ s = t ++ dropBlanks u := by
  rw [skipNot] at h
  split at h
  · rename_i v hv
    obtain ⟨rfl, rfl⟩ : true = negated ∧ dropBlanks v = u := by simpa using h
    rw [dropBlanks_dropBlanks] at hu ⊢
    obtain ⟨hword, hend⟩ := keyword?_eq_some_iff.1 hv
    obtain ⟨b, hb, hgap⟩ := exists_gap hend hu
    refine ⟨_, .present hb, ?_⟩
    rw [List.append_assoc, ← hgap, hword]
  · obtain ⟨rfl, rfl⟩ : false = negated ∧ s = u := by simpa using h
    exact ⟨[], .absent, hs.symm⟩

lemma skipNot_append (h : Negation t negated) (hu : dropBlanks u = u) (hn : 'n' ∉ u.head?) :
    skipNot (t ++ u) = (negated, u) := by
  cases h with
  | absent => rw [List.nil_append, skipNot, keyword?_eq_none (d := 'n') rfl hn]
  | present hb =>
      rw [List.append_assoc, skipNot, keyword?_append (startsAlphanumeric_gap hb u)]
      simp only [dropBlanks_append hb.blanks, hu]

lemma dropBlanks_negation_append (h : Negation t negated) (hu : dropBlanks u = u) :
    dropBlanks (t ++ u) = t ++ u := by
  cases h with
  | absent => exact hu
  | present hb =>
      rw [List.append_assoc]
      exact dropBlanks_word_append (d := 'n') rfl rfl _

end Reading

namespace Comparison

variable {s t u rest : List Char} {negated : Bool} {c : Comparison} {ranges : List Range}

/-- The ranges of an `is`, behind the word. -/
lemma exists_is (hs : startsAlphanumeric s = false)
    (hnot : skipNot (dropBlanks s) = (negated, u))
    (hranges : Comparison.readRanges .is (dropBlanks u) = .ok (ranges, rest)) :
    ∃ t, Comparison.Spells ("is".toList ++ t) negated .is ranges ∧ s = t ++ rest := by
  simp only [readRanges, bind_eq_ok, Prod.exists, pure_eq_ok, Prod.mk.injEq] at hranges
  obtain ⟨x, v, hx, rfl, rfl⟩ := hranges
  obtain ⟨q, hq, hu⟩ := exists_integer hx
  have hdigit : startsAlphanumeric (dropBlanks u) = true := by
    rw [hu]
    exact startsAlphanumeric_integer hq v
  obtain ⟨p, hp, hsplit⟩ := exists_negation hnot (dropBlanks_dropBlanks s) hdigit
  have hword : startsAlphanumeric (dropBlanks s) = true := by
    rw [hsplit]
    cases hp with
    | absent => exact hdigit
    | present _ => rfl
  obtain ⟨b, hb, hgap⟩ := exists_gap hs hword
  refine ⟨b ++ p ++ q, ?_, ?_⟩
  · have h := Comparison.Spells.is hb hp hq
    simpa only [List.append_assoc] using h
  · rw [hgap, hsplit, hu]
    simp only [List.append_assoc]

/-- The ranges of a membership, behind the word or sign. -/
lemma exists_list (hc : c ≠ .is)
    (hranges : c.readRanges (dropBlanks u) = .ok (ranges, rest)) :
    ∃ t, Range.SpellsList t ranges ∧ dropBlanks u = t ++ rest := by
  cases c with
  | is => exact absurd rfl hc
  | «in» => exact Range.exists_readList hranges
  | within => exact Range.exists_readList hranges

/-- The ranges of a membership, behind its word. -/
lemma exists_membership (hs : dropBlanks s = s) (h : readMembership s = .ok ((negated, c), u))
    (hranges : c.readRanges (dropBlanks u) = .ok (ranges, rest)) :
    ∃ t, Comparison.Spells t negated c ranges ∧ s = t ++ rest := by
  obtain ⟨w, v, hw, hnot, hv, hend⟩ : ∃ w v, Word w c ∧ skipNot s = (negated, v) ∧
      v = w.toList ++ u ∧ startsAlphanumeric u = false := by
    rw [readMembership] at h
    simp only at h
    split at h
    · rename_i v hv
      obtain ⟨⟨hn, rfl⟩, rfl⟩ : ((skipNot s).1 = negated ∧ .in = c) ∧ v = u := by simpa using h
      obtain ⟨hword, hend⟩ := keyword?_eq_some_iff.1 hv
      exact ⟨"in", _, .in, by rw [← hn], hword, hend⟩
    · rename_i v _ hv
      split_ifs at h with hend
      · exact absurd h stop_ne_ok
      · obtain ⟨⟨hn, rfl⟩, rfl⟩ : ((skipNot s).1 = negated ∧ .within = c) ∧ v = u := by
          simpa using h
        exact ⟨"within", _, .within, by rw [← hn], literal?_eq_some_iff.1 hv, by simpa using hend⟩
    · exact absurd h stop_ne_ok
  obtain ⟨q, hq, hu⟩ := exists_list (by cases hw <;> decide) hranges
  have hdigit : startsAlphanumeric (dropBlanks u) = true := by
    rw [hu]
    exact Range.startsAlphanumeric_of_spellsList hq rest
  have hletter : startsAlphanumeric v = true := by
    rw [hv]
    cases hw <;> rfl
  obtain ⟨b, hb, hgap⟩ := exists_gap hend hdigit
  obtain ⟨p, hp, hsplit⟩ :=
    exists_negation hnot hs (by rw [dropBlanks_eq_self hletter]; exact hletter)
  rw [dropBlanks_eq_self hletter] at hsplit
  refine ⟨_, .membership hp hw hb hq, ?_⟩
  rw [hsplit, hv, hgap, hu]
  simp only [List.append_assoc]

/-- A comparison that was read stands there, with the ranges that were read behind it. -/
lemma exists_read (hs : dropBlanks s = s) (h : Comparison.read s = .ok ((negated, c), u))
    (hranges : c.readRanges (dropBlanks u) = .ok (ranges, rest)) :
    ∃ t, Comparison.Spells t negated c ranges ∧ s = t ++ rest := by
  rw [Comparison.read] at h
  split at h
  · rename_i v hv
    obtain ⟨hword, hend⟩ := keyword?_eq_some_iff.1 hv
    obtain ⟨⟨hn, rfl⟩, rfl⟩ : ((skipNot (dropBlanks v)).1 = negated ∧ .is = c) ∧
        (skipNot (dropBlanks v)).2 = u := by simpa using h
    have hnot : skipNot (dropBlanks v) = (negated, (skipNot (dropBlanks v)).2) := by rw [← hn]
    obtain ⟨t, ht, rfl⟩ := exists_is hend hnot hranges
    exact ⟨_, ht, by rw [hword, List.append_assoc]⟩
  · rename_i v _ hv
    obtain ⟨⟨rfl, rfl⟩, rfl⟩ : (true = negated ∧ .in = c) ∧ v = u := by simpa using h
    obtain ⟨t, ht, hu⟩ := exists_list (by decide) hranges
    obtain ⟨b, hb, hgap⟩ := exists_blanks v
    refine ⟨_, .notEqual hb ht, ?_⟩
    rw [literal?_eq_some_iff.1 hv, hgap, hu]
    simp only [List.append_assoc]
  · rename_i v _ _ hv
    obtain ⟨⟨rfl, rfl⟩, rfl⟩ : (false = negated ∧ .in = c) ∧ v = u := by simpa using h
    obtain ⟨t, ht, hu⟩ := exists_list (by decide) hranges
    obtain ⟨b, hb, hgap⟩ := exists_blanks v
    refine ⟨_, .equal hb ht, ?_⟩
    rw [literal?_eq_some_iff.1 hv, hgap, hu]
    simp only [List.append_assoc]
  · exact exists_membership hs h hranges

/-! #### What stands there is read -/

lemma readRanges_eq_ok {b : List Char} (hc : c ≠ .is) (hb : Blanks b)
    (h : Range.SpellsList t ranges) (hrest : Follows ['@', 'a', 'o'] rest) :
    c.readRanges (dropBlanks (b ++ (t ++ rest))) = .ok (ranges, rest) := by
  rw [dropBlanks_append hb,
    dropBlanks_eq_self (Range.startsAlphanumeric_of_spellsList h rest)]
  cases c with
  | is => exact absurd rfl hc
  | «in» => exact Range.readList_eq_ok h hrest
  | within => exact Range.readList_eq_ok h hrest

lemma readMembership_eq_ok {w : String} (hn : Negation t negated) (hw : Word w c)
    (hs : startsAlphanumeric s = false) :
    readMembership (t ++ (w.toList ++ s)) = .ok ((negated, c), s) := by
  have hnot : skipNot (t ++ (w.toList ++ s)) = (negated, w.toList ++ s) := by
    cases hw with
    | «in» => exact skipNot_append hn rfl (by simp)
    | within => exact skipNot_append hn rfl (by simp)
  simp only [readMembership, hnot]
  cases hw with
  | «in» => rw [keyword?_append hs]
  | within =>
      rw [keyword?_eq_none (d := 'i') rfl (by simp), literal?_append]
      simp [hs]

/-- The word of a membership is no other word or sign of a comparison. -/
lemma read_membership {w : String} (hn : Negation t negated) (hw : Word w c) (s : List Char) :
    Comparison.read (t ++ (w.toList ++ s)) = readMembership (t ++ (w.toList ++ s)) := by
  have hhead : ∃ d, d ∈ (t ++ (w.toList ++ s)).head? ∧ d ≠ '!' ∧ d ≠ '=' := by
    cases hn with
    | absent => cases hw <;> exact ⟨_, rfl, by decide, by decide⟩
    | present _ => exact ⟨'n', rfl, by decide, by decide⟩
  have his : keyword? "is" (t ++ (w.toList ++ s)) = none := by
    cases hn with
    | absent => cases hw <;> rfl
    | present _ => exact keyword?_eq_none (d := 'i') rfl (by simp)
  obtain ⟨d, hd, hbang, hsign⟩ := hhead
  have hne : literal? "!=" (t ++ (w.toList ++ s)) = none :=
    literal?_eq_none (d := '!') rfl fun h => hbang (by simpa using hd.symm.trans h)
  have heq : literal? "=" (t ++ (w.toList ++ s)) = none :=
    literal?_eq_none (d := '=') rfl fun h => hsign (by simpa using hd.symm.trans h)
  simp only [Comparison.read, his, hne, heq]

/-- A text that spells a comparison is read as it, up to the ranges, and then these. -/
lemma read_eq_ok (h : Comparison.Spells t negated c ranges)
    (hrest : Follows ['@', 'a', 'o'] rest) :
    ∃ u, Comparison.read (t ++ rest) = .ok ((negated, c), u) ∧
      c.readRanges (dropBlanks u) = .ok (ranges, rest) := by
  cases h with
  | @is b s v negated x hb hn hx =>
      have hdigit := startsAlphanumeric_integer hx rest
      have hself := dropBlanks_eq_self hdigit
      have hnot := skipNot_append hn hself (notMem_head?_integer hx rest (by decide))
      refine ⟨v ++ rest, ?_, ?_⟩
      · simp only [Comparison.read, List.append_assoc,
          keyword?_append (startsAlphanumeric_gap hb (s ++ (v ++ rest))),
          dropBlanks_append hb.blanks, dropBlanks_negation_append hn hself, hnot]
      · rw [hself]
        simp only [readRanges, integer_eq_ok hx (.of_follows hrest (by simp))]
        rfl
  | @equal b t ranges hb hl =>
      refine ⟨b ++ (t ++ rest), ?_, readRanges_eq_ok (by decide) hb hl hrest⟩
      simp only [Comparison.read, List.append_assoc, literal?_append]
      rw [keyword?_eq_none (d := 'i') rfl (by simp), literal?_eq_none (d := '!') rfl (by simp)]
  | @notEqual b t ranges hb hl =>
      refine ⟨b ++ (t ++ rest), ?_, readRanges_eq_ok (by decide) hb hl hrest⟩
      simp only [Comparison.read, List.append_assoc, literal?_append]
      rw [keyword?_eq_none (d := 'i') rfl (by simp)]
  | @membership s b t negated w c ranges hn hw hb hl =>
      refine ⟨b ++ (t ++ rest), ?_, readRanges_eq_ok (by cases hw <;> decide) hb.blanks hl hrest⟩
      simp only [List.append_assoc]
      rw [read_membership hn hw, readMembership_eq_ok hn hw (startsAlphanumeric_gap hb _)]

/-- The characters a comparison can start with. -/
lemma exists_head (h : Comparison.Spells t negated c ranges) :
    ∃ d u, t = d :: u ∧ isBlank d = false ∧ d ∈ ['i', '=', '!', 'n', 'w'] := by
  cases h with
  | is _ _ _ => exact ⟨'i', _, rfl, rfl, by simp⟩
  | equal _ _ => exact ⟨'=', _, rfl, rfl, by simp⟩
  | notEqual _ _ => exact ⟨'!', _, rfl, rfl, by simp⟩
  | membership hn hw _ _ =>
      cases hn with
      | present _ => exact ⟨'n', _, rfl, rfl, by simp⟩
      | absent =>
          cases hw with
          | «in» => exact ⟨'i', _, rfl, rfl, by simp⟩
          | within => exact ⟨'w', _, rfl, rfl, by simp⟩

lemma ne_nil_of_spells (h : Comparison.Spells t negated c ranges) : t ≠ [] := by
  obtain ⟨d, u, rfl, -, -⟩ := exists_head h
  exact List.cons_ne_nil d u

lemma follows_of_spells (h : Comparison.Spells t negated c ranges) (s : List Char) :
    Follows ['i', '=', '!', 'n', 'w'] (t ++ s) := by
  obtain ⟨d, u, rfl, hd, hmem⟩ := exists_head h
  exact .cons hd hmem _

lemma dropBlanks_of_spells (h : Comparison.Spells t negated c ranges) (s : List Char) :
    dropBlanks (t ++ s) = t ++ s := by
  obtain ⟨d, u, rfl, hd, -⟩ := exists_head h
  exact dropBlanks_cons hd _

end Comparison

/-! ### Relations -/

namespace Relation

variable {s t rest : List Char} {r : Relation}

lemma exists_read (h : Relation.read s = .ok (r, rest)) :
    ∃ t, Relation.Spells t r ∧ dropBlanks s = t ++ rest := by
  simp only [Relation.read, bind_eq_ok, pure_eq_ok, Prod.exists, Prod.mk.injEq] at h
  obtain ⟨x, u, hx, negated, c, v, hc, ranges, _, hranges, rfl, rfl⟩ := h
  obtain ⟨m, hm, hs, hapart⟩ := Expr.exists_read hx
  obtain ⟨b, hb, hu⟩ := exists_blanks u
  obtain ⟨t, ht, hu'⟩ := Comparison.exists_read (dropBlanks_dropBlanks u) hc hranges
  rw [hu, hu', ← List.append_assoc, ← List.append_assoc] at hapart hs
  refine ⟨_, .intro hm hb ht ?_, hs⟩
  cases hmt : m ++ b ++ t with
  | nil => rfl
  | cons d _ =>
      rw [hmt] at hapart
      exact hapart

lemma read_eq_ok {b : List Char} (h : Relation.Spells t r) (hb : Blanks b)
    (hrest : Follows ['@', 'a', 'o'] rest) : Relation.read (b ++ (t ++ rest)) = .ok (r, rest) := by
  obtain ⟨hm, hc, ht, hapart⟩ := h
  rename_i o s c t m? negated cmp ranges
  have hfollows : Follows ['i', '=', '!', 'n', 'w'] (c ++ (t ++ rest)) :=
    .blanks_append hc (Comparison.follows_of_spells ht rest)
  have hletter : isBlank o.symbol = false := by cases o <;> decide
  have hstart : startsAlphanumeric (s ++ (c ++ (t ++ rest))) = false := by
    rw [← hapart, ← List.append_assoc, ← List.append_assoc]
    exact startsAlphanumeric_append (by simp [Comparison.ne_nil_of_spells ht]) rest
  obtain ⟨u, hread, hranges⟩ := Comparison.read_eq_ok ht hrest
  have hexpr := Expr.read_eq_ok (o := o) hm hfollows hstart
  simp only [Relation.read, List.append_assoc, List.cons_append, dropBlanks_append hb,
    dropBlanks_cons hletter, hexpr, bind_eq_ok, pure_eq_ok, Prod.exists, Prod.mk.injEq]
  refine ⟨⟨o, m?⟩, _, rfl, negated, cmp, u, ?_, ranges, rest, hranges, rfl, rfl⟩
  rw [dropBlanks_append hc, Comparison.dropBlanks_of_spells ht, hread]

end Relation

end PluralRules
