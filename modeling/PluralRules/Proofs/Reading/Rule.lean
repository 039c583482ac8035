import PluralRules.Proofs.Reading.Relation
import PluralRules.Reading.Rule

/-!
Reading rules, against the grammar.

* `Condition.exists_read`, `Condition.read_eq_ok`: conditions. A connective is found where it
  stands because no relation, and no conjunction, goes on with its first letter.
* `Sample.exists_readList`, `Sample.readList_eq_ok`: the samples of one kind. A comma belongs to
  the list if a number comes behind it, and to the ending if an ellipsis does.
* `Rule.read_eq_ok_iff`: reading a text succeeds with what the text spells, and only with
  that.
-/

namespace PluralRules

open Grammar Text Reading

/-! ### Conditions -/

namespace Relation

lemma startsAlphanumeric_of_spells {t : List Char} {r : Relation} (h : Relation.Spells t r)
    (rest : List Char) : startsAlphanumeric (t ++ rest) = true := by
  obtain ⟨-, -, -, -⟩ := h
  rename_i o _ _ _ _ _ _ _
  cases o <;> rfl

end Relation

namespace Condition

variable {s t rest : List Char} {c : Condition}

lemma exists_readConjunction (h : readConjunction s = .ok (c, rest)) :
    ∃ t, SpellsConjunction t c ∧ dropBlanks s = t ++ rest := by
  simp only [readConjunction, bind_eq_ok, pure_eq_ok, Prod.exists, Prod.mk.injEq] at h
  obtain ⟨rs, u, hrs, rfl, rfl⟩ := h
  have hchain : ∃ t, Chain (Connective "and") Relation.Spells t rs ∧ dropBlanks s = t ++ u := by
    refine exists_connective_chain ?_ ?_ hrs
    · exact fun _ _ rest h => Relation.startsAlphanumeric_of_spells h rest
    · exact fun _ _ _ h => Relation.exists_read h
  obtain ⟨t, ht, hs⟩ := hchain
  exact ⟨t, spellsConjunction_iff.2 ⟨rs, ht, rfl⟩, hs⟩

lemma readConjunction_eq_ok {b : List Char} (h : SpellsConjunction t c) (hb : Blanks b)
    (hrest : Follows ['@', 'o'] rest) :
    readConjunction (b ++ (t ++ rest)) = .ok (c, rest) := by
  obtain ⟨rs, hrs, rfl⟩ := spellsConjunction_iff.1 h
  have hread : chain (connective? "and") Relation.read (b ++ (t ++ rest)) = .ok (rs, rest) :=
    connective_chain_eq_ok (d := 'a') rfl rfl (by simp)
      (fun _ _ _ _ hr hb hrest => Relation.read_eq_ok hr hb hrest) hb hrs hrest (by decide)
  simp only [readConjunction, hread]
  rfl

lemma startsAlphanumeric_of_spellsConjunction (h : SpellsConjunction t c) (rest : List Char) :
    startsAlphanumeric (t ++ rest) = true := by
  obtain ⟨rs, ⟨hr, -⟩, -⟩ := spellsConjunction_iff.1 h
  rw [List.append_assoc]
  exact Relation.startsAlphanumeric_of_spells hr _

lemma exists_read (h : Condition.read s = .ok (c, rest)) :
    ∃ t, Condition.Spells t c ∧ dropBlanks s = t ++ rest := by
  simp only [Condition.read, bind_eq_ok, pure_eq_ok, Prod.exists, Prod.mk.injEq] at h
  obtain ⟨parts, u, hparts, rfl, rfl⟩ := h
  have hchain : ∃ t, Chain (Connective "or") SpellsConjunction t parts ∧ dropBlanks s = t ++ u := by
    refine exists_connective_chain ?_ ?_ hparts
    · exact fun _ _ rest h => startsAlphanumeric_of_spellsConjunction h rest
    · exact fun _ _ _ h => exists_readConjunction h
  obtain ⟨t, ht, hs⟩ := hchain
  exact ⟨t, spells_iff.2 ⟨parts, ht, rfl⟩, hs⟩

lemma read_eq_ok (h : Condition.Spells t c) (hrest : Follows ['@'] rest) :
    Condition.read (t ++ rest) = .ok (c, rest) := by
  obtain ⟨parts, hparts, rfl⟩ := spells_iff.1 h
  have hread : chain (connective? "or") readConjunction ([] ++ (t ++ rest)) = .ok (parts, rest) :=
    connective_chain_eq_ok (d := 'o') rfl rfl (by simp)
      (fun _ _ _ _ hc hb hrest => readConjunction_eq_ok hc hb hrest) .nil hparts hrest (by decide)
  rw [List.nil_append] at hread
  simp only [Condition.read, hread]
  rfl

lemma startsAlphanumeric_of_spells (h : Condition.Spells t c) (rest : List Char) :
    startsAlphanumeric (t ++ rest) = true := by
  obtain ⟨parts, ⟨hc, -⟩, -⟩ := spells_iff.1 h
  rw [List.append_assoc]
  exact startsAlphanumeric_of_spellsConjunction hc _

lemma exists_readOptional (hs : dropBlanks s = s) (h : readOptional s = .ok (c, rest)) :
    ∃ t, SpellsOptional t c ∧ s = t ++ rest := by
  unfold readOptional at h
  split at h
  · obtain ⟨rfl, rfl⟩ : Formula.always = c ∧ [] = rest := by simpa using h
    exact ⟨[], .absent, rfl⟩
  · rename_i u
    obtain ⟨rfl, rfl⟩ : Formula.always = c ∧ '@' :: u = rest := by simpa using h
    exact ⟨[], .absent, rfl⟩
  · obtain ⟨t, ht, hsplit⟩ := exists_read h
    exact ⟨t, .present ht, by rw [← hsplit, hs]⟩

lemma readOptional_eq_ok (h : SpellsOptional t c) (hrest : Follows ['@'] rest) :
    ∃ u, readOptional (dropBlanks (t ++ rest)) = .ok (c, u) ∧ dropBlanks u = dropBlanks rest := by
  cases h with
  | absent =>
      refine ⟨dropBlanks rest, ?_, dropBlanks_dropBlanks rest⟩
      rw [List.nil_append]
      cases hd : dropBlanks rest with
      | nil => rfl
      | cons d u =>
          obtain rfl : d = '@' := by simpa [Follows, hd] using hrest
          rfl
  | present h =>
      have hletter := startsAlphanumeric_of_spells h rest
      refine ⟨rest, ?_, rfl⟩
      rw [dropBlanks_eq_self hletter, ← read_eq_ok h hrest]
      unfold readOptional
      split
      · rename_i hnil
        rw [hnil] at hletter
        exact absurd hletter (by decide)
      · rename_i hat
        rw [hat] at hletter
        exact absurd hletter (by simp [startsAlphanumeric])
      · rfl

end Condition

/-! ### Numbers of samples -/

namespace Operands

variable {s t rest : List Char} {o : Operands}

/-- A numeral has the operands with its digits and its number of fraction digits, and none if
there are no such operands. -/
lemma ofNumeral_eq_ok_iff {x : Numeral} :
    Operands.ofNumeral x = .ok o ↔ x.digitsValue = o.digits ∧ x.fraction.length = o.v := by
  rw [Operands.ofNumeral, Decimal.ofNumeral?]
  by_cases hfits : x.digitsValue < 2 ^ 96 ∧ x.fraction.length ≤ 28
  · simp only [hfits, and_self, dite_true, Except.ok.injEq, Operands.ext_iff, Operands.ofDecimal]
    cases x.negative <;> simp
  · simp only [hfits, dite_false, reduceCtorEq, false_iff]
    rintro ⟨hdigits, hv⟩
    exact hfits ⟨hdigits ▸ o.digits_lt, hv ▸ o.v_le⟩

lemma exists_read (h : Operands.read s = .ok (o, rest)) :
    ∃ t, Operands.Spells t o ∧ s = t ++ rest := by
  rw [Operands.read] at h
  split at h
  · exact absurd h stop_ne_ok
  · rename_i x u hscan
    split at h
    · rename_i p hp
      obtain ⟨rfl, rfl⟩ : p = o ∧ u = rest := by simpa using h
      obtain ⟨hdigits, hv⟩ := ofNumeral_eq_ok_iff.1 hp
      obtain ⟨hsign, hs⟩ := Numeral.eq_append_of_scan? hscan
      refine ⟨_, .intro hsign hdigits hv, ?_⟩
      rw [Numeral.chars, hsign, hs]
      rfl
    · exact absurd h stop_ne_ok

lemma read_eq_ok (h : Operands.Spells t o) (hrest : Follows ['~', ',', '@'] rest) :
    Operands.read (t ++ rest) = .ok (o, rest) := by
  obtain ⟨hsign, hdigits, hv⟩ := h
  rename_i x
  have hend : EndsInteger rest := .of_follows hrest (by simp)
  have hpoint : '.' ∉ rest.head? := by
    intro hc
    rcases hrest.head hc with hb | hb
    · exact absurd hb (by decide)
    · exact absurd hb (by decide)
  have hscan : Numeral.scan? false (x.magnitude ++ rest) = some (x, rest) := by
    rw [← hsign]
    refine x.scan?_magnitude_append rest ?_ fun _ => ?_
    · cases rest with
      | nil => rfl
      | cons c rest => simp [hend.not_isDigit c (by simp)]
    · unfold Numeral.splitFraction
      split
      · exact absurd (by simp) hpoint
      · rfl
  simp only [Operands.read, Numeral.chars, hsign, Bool.false_eq_true, if_false, hscan,
    ofNumeral_eq_ok_iff.2 ⟨hdigits, hv⟩]

lemma startsAlphanumeric_of_spells (h : Operands.Spells t o) (rest : List Char) :
    startsAlphanumeric (t ++ rest) = true := by
  obtain ⟨hsign, -, -⟩ := h
  rename_i x
  have hdigit := x.isDigit_whole
  cases hw : x.whole with
  | nil => exact absurd hw x.whole_ne_nil
  | cons c w =>
      simp only [Numeral.chars, hsign, Numeral.magnitude, hw, Bool.false_eq_true, if_false]
      exact isAlphanum_of_isDigit (hdigit c (by simp [hw]))

end Operands

/-! ### Samples -/

namespace Sample

variable {kind : SampleKind} {s t u rest : List Char} {x : Sample} {xs : List Sample}

lemma exists_read (h : Sample.read kind s = .ok (x, rest)) :
    ∃ t, Sample.Spells kind t x ∧ s = t ++ rest := by
  simp only [Sample.read, bind_eq_ok, Prod.exists] at h
  obtain ⟨low, u, hlow, h⟩ := h
  obtain ⟨t, ht, rfl⟩ := Operands.exists_read hlow
  cases htilde : between? (literal? "~") u with
  | none =>
      obtain ⟨rfl, rfl⟩ : ⟨kind, low, none⟩ = x ∧ u = rest := by
        simpa [htilde, pure_eq_ok] using h
      exact ⟨t, .value ht, rfl⟩
  | some v =>
      simp only [htilde, bind_eq_ok, Prod.exists, pure_eq_ok, Prod.mk.injEq] at h
      obtain ⟨high, w, hhigh, rfl, rfl⟩ := h
      obtain ⟨p, hp, rfl, -⟩ := exists_around htilde
      obtain ⟨q, hq, rfl⟩ := Operands.exists_read hhigh
      exact ⟨_, .span ht hp hq, by simp only [List.append_assoc]⟩

/-- A sample is read where it stands, and so is the number that it starts with. -/
lemma read_eq_ok (h : Sample.Spells kind t x) (hrest : Follows [',', '@'] rest) :
    Sample.read kind (t ++ rest) = .ok (x, rest) ∧
      ∃ o u, Operands.read (t ++ rest) = .ok (o, u) := by
  cases h with
  | @value s o ho =>
      have hread := Operands.read_eq_ok ho (hrest.mono (by decide))
      have htilde : between? (literal? "~") rest = none :=
        between?_eq_none (d := '~') rfl hrest (by simp)
      refine ⟨?_, o, rest, hread⟩
      simp only [Sample.read, bind_eq_ok, Prod.exists]
      refine ⟨o, rest, hread, ?_⟩
      rw [htilde]
      rfl
  | @span s v u o p ho hv hp =>
      have hdigit := dropBlanks_eq_self (Operands.startsAlphanumeric_of_spells hp rest)
      have hread := Operands.read_eq_ok ho
        (hv.follows (d := '~') rfl rfl (by simp) (u ++ rest))
      rw [List.append_assoc, List.append_assoc]
      refine ⟨?_, o, v ++ (u ++ rest), hread⟩
      simp only [Sample.read, bind_eq_ok, Prod.exists]
      refine ⟨o, _, hread, ?_⟩
      rw [between?_append (d := '~') rfl rfl hv hdigit]
      simp only [Operands.read_eq_ok hp (hrest.mono (by decide))]
      rfl

lemma startsAlphanumeric_of_spells (h : Sample.Spells kind t x) (rest : List Char) :
    startsAlphanumeric (t ++ rest) = true := by
  cases h with
  | value h => exact Operands.startsAlphanumeric_of_spells h rest
  | span h _ _ =>
      rw [List.append_assoc, List.append_assoc]
      exact Operands.startsAlphanumeric_of_spells h _

/-! ### Lists of samples -/

lemma comma?_eq_some_iff : Sample.comma? s = some u ↔
    between? (literal? ",") s = some u ∧ ∃ o v, Operands.read u = .ok (o, v) := by
  rw [Sample.comma?, Option.filter_eq_some_iff]
  refine and_congr_right fun _ => ?_
  cases hread : Operands.read u with
  | ok p =>
      obtain ⟨o, v⟩ := p
      simp [Except.isOk, Except.toBool]
  | error e => simp [Except.isOk, Except.toBool]

/-- An ellipsis is no number, so the comma before it is none between samples. -/
lemma comma?_eq_none (ht : Around "," t) (hs : dropBlanks s = s)
    (hdigit : s.takeWhile Char.isDigit = []) : Sample.comma? (t ++ s) = none := by
  rw [Option.eq_none_iff_forall_ne_some]
  intro u hu
  obtain ⟨hfound, o, v, hread⟩ := comma?_eq_some_iff.1 hu
  rw [between?_append (d := ',') rfl rfl ht hs] at hfound
  obtain rfl : s = u := by simpa using hfound
  simp [Operands.read, Numeral.scan?, hdigit, stop] at hread

/-- An ending that was found stands there. -/
lemma exists_ending (s : List Char) :
    ∃ t, Ending t ∧ s = t ++ (Sample.ellipsis? s).getD s := by
  cases hend : Sample.ellipsis? s with
  | none => exact ⟨[], .absent, rfl⟩
  | some u =>
      obtain ⟨v, hcomma, hv⟩ := Option.bind_eq_some_iff.1 hend
      obtain ⟨t, ht, rfl, -⟩ := exists_around hcomma
      rcases (Option.orElse_eq_some _ _ _).1 hv with hchar | ⟨-, hpoints⟩
      · exact ⟨_, .ellipsis ht, by simp [literal?_eq_some_iff.1 hchar]⟩
      · exact ⟨_, .points ht, by simp [literal?_eq_some_iff.1 hpoints]⟩

/-- Behind the samples of a kind comes their ending: it adds no sample, and it is found. -/
lemma ending_found (h : Ending t) (hrest : Follows ['@'] rest) :
    Follows [',', '@'] (t ++ rest) ∧ Sample.comma? (t ++ rest) = none ∧
      (Sample.ellipsis? (t ++ rest)).getD (t ++ rest) = rest := by
  cases h with
  | absent =>
      have hnone : between? (literal? ",") rest = none :=
        between?_eq_none (d := ',') rfl hrest (by simp)
      refine ⟨hrest.mono (by decide), ?_, ?_⟩
      · simp [Sample.comma?, hnone]
      · simp [Sample.ellipsis?, hnone]
  | @ellipsis t ht =>
      have hself : dropBlanks ("…".toList ++ rest) = "…".toList ++ rest := rfl
      rw [List.append_assoc]
      refine ⟨ht.follows (d := ',') rfl rfl (by simp) _, comma?_eq_none ht hself rfl, ?_⟩
      rw [Sample.ellipsis?, between?_append (d := ',') rfl rfl ht hself, Option.bind_some,
        literal?_append]
      rfl
  | @points t ht =>
      have hself : dropBlanks ("...".toList ++ rest) = "...".toList ++ rest := rfl
      rw [List.append_assoc]
      refine ⟨ht.follows (d := ',') rfl rfl (by simp) _, comma?_eq_none ht hself rfl, ?_⟩
      rw [Sample.ellipsis?, between?_append (d := ',') rfl rfl ht hself, Option.bind_some,
        literal?_eq_none (d := '…') rfl (by simp), literal?_append]
      rfl

lemma exists_chain_read (h : chain Sample.comma? (Sample.read kind) s = .ok (xs, rest)) :
    ∃ t, Chain (Around ",") (Sample.Spells kind) t xs ∧ s = t ++ rest := by
  refine exists_chain (f := id) (fun _ _ _ h => exists_read h) ?_ h
  intro s u x rest hcomma hx
  obtain ⟨t, ht, rfl, -⟩ := exists_around (comma?_eq_some_iff.1 hcomma).1
  obtain ⟨v, hv, rfl⟩ := exists_read hx
  exact ⟨t, v, ht, hv, by simp only [List.append_assoc]⟩

lemma chain_read_eq_ok (h : Chain (Around ",") (Sample.Spells kind) t xs)
    (hrest : Follows [',', '@'] rest) (hstop : Sample.comma? rest = none) :
    chain Sample.comma? (Sample.read kind) (t ++ rest) = .ok (xs, rest) := by
  refine chain_eq_ok (b := []) ?_ ?_ (fun _ _ _ h hrest => (read_eq_ok h hrest).1) ?_ h hrest hstop
  · exact fun _ h => h.ne_nil (by simp)
  · exact fun _ _ h => h.follows (d := ',') rfl rfl (by simp) _
  · intro t v x rest hcomma hx hrest
    obtain ⟨hread, hnumber⟩ := read_eq_ok hx hrest
    have hdigit := dropBlanks_eq_self (startsAlphanumeric_of_spells hx rest)
    have hfound := between?_append (d := ',') rfl rfl hcomma hdigit
    exact ⟨_, comma?_eq_some_iff.2 ⟨hfound, hnumber⟩, hread⟩

lemma exists_readList (h : Sample.readList kind s = .ok (xs, rest)) :
    ∃ t, Sample.SpellsAnnotation kind t xs ∧ s = t ++ rest := by
  rw [Sample.readList] at h
  split at h
  · obtain ⟨rfl, rfl⟩ : [] = xs ∧ s = rest := by simpa using h
    exact ⟨[], .absent, rfl⟩
  · rename_i u hlabel
    simp only [bind_eq_ok, pure_eq_ok, Prod.exists, Prod.mk.injEq] at h
    obtain ⟨_, v, hchain, rfl, rfl⟩ := h
    obtain ⟨b, hb, hu⟩ := exists_blanks u
    obtain ⟨t, ht, hsplit⟩ := exists_chain_read hchain
    obtain ⟨e, he, hv⟩ := exists_ending v
    refine ⟨_, .present hb (.intro ht he), ?_⟩
    rw [literal?_eq_some_iff.1 hlabel, hu, hsplit]
    conv_lhs => rw [hv]
    simp only [List.append_assoc]

/-- Samples are read where they stand. Where they are missing, their label must be missing
too. -/
lemma readList_eq_ok (h : Sample.SpellsAnnotation kind t xs) (hrest : Follows ['@'] rest)
    (hlabel : literal? kind.label (dropBlanks rest) = none) :
    ∃ u, Sample.readList kind (dropBlanks (t ++ rest)) = .ok (xs, u) ∧
      dropBlanks u = dropBlanks rest := by
  cases h with
  | absent =>
      refine ⟨dropBlanks rest, ?_, dropBlanks_dropBlanks rest⟩
      rw [List.nil_append, Sample.readList, hlabel]
  | present hb hlist =>
      obtain ⟨hchain, hend⟩ := hlist
      rename_i b s e
      obtain ⟨hfollows, hstop, hfound⟩ := ending_found hend hrest
      have hdigit : startsAlphanumeric (s ++ (e ++ rest)) = true := by
        obtain ⟨hx, -⟩ := hchain
        rw [List.append_assoc]
        exact startsAlphanumeric_of_spells hx _
      refine ⟨rest, ?_, rfl⟩
      simp only [List.append_assoc]
      rw [dropBlanks_word_append (d := '@') (by cases kind <;> rfl) rfl, Sample.readList,
        literal?_append]
      simp only [dropBlanks_append hb, dropBlanks_eq_self hdigit,
        chain_read_eq_ok hchain hfollows hstop]
      show Except.ok (xs, (Sample.ellipsis? (e ++ rest)).getD (e ++ rest)) = _
      rw [hfound]

/-- The samples of a kind start with their label, if there are any. -/
lemma follows_of_spellsAnnotation (h : Sample.SpellsAnnotation kind t xs)
    (hrest : Follows ['@'] rest) : Follows ['@'] (t ++ rest) := by
  cases h with
  | absent => exact hrest
  | present _ _ =>
      simp only [List.append_assoc]
      exact .word (d := '@') (by cases kind <;> rfl) rfl (by simp) _

end Sample

/-! ### Rules -/

namespace Rule

variable {s : List Char} {r : Rule}

lemma spells_of_read (h : Rule.read s = .ok r) : Rule.Spells s r := by
  simp only [Rule.read, bind_eq_ok, Prod.exists] at h
  obtain ⟨c, u, hc, integers, v, hi, decimals, w, hd, h⟩ := h
  obtain ⟨b₀, hb₀, hs⟩ := exists_blanks s
  obtain ⟨b₁, hb₁, hu⟩ := exists_blanks u
  obtain ⟨b₂, hb₂, hv⟩ := exists_blanks v
  obtain ⟨b₃, hb₃, hw⟩ := exists_blanks w
  obtain ⟨p, hp, hsplit⟩ := Condition.exists_readOptional (dropBlanks_dropBlanks s) hc
  obtain ⟨q, hq, hsplit'⟩ := Sample.exists_readList hi
  obtain ⟨t, ht, hsplit''⟩ := Sample.exists_readList hd
  cases hrest : dropBlanks w with
  | nil =>
      obtain rfl : ⟨c, integers ++ decimals⟩ = r := by simpa [hrest, pure_eq_ok] using h
      have hspells := Rule.Spells.intro hb₀ hp hb₁ hq hb₂ ht hb₃
      rw [hs, hsplit, hu, hsplit', hv, hsplit'', hw, hrest]
      simpa only [List.append_assoc, List.append_nil] using hspells
  | cons a rest =>
      simp only [hrest] at h
      exact absurd h stop_ne_ok

lemma read_eq_ok (h : Rule.Spells s r) : Rule.read s = .ok r := by
  obtain ⟨hb₀, hc, hb₁, hi, hb₂, hd, hb₃⟩ := h
  rename_i b₀ p b₁ q b₂ t b₃ c integers decimals
  have hend : Follows ['@'] b₃ := by simpa using Follows.blanks_append hb₃ .nil
  have hdecimal : Follows ['@'] (b₂ ++ (t ++ b₃)) :=
    .blanks_append hb₂ (Sample.follows_of_spellsAnnotation hd hend)
  have hinteger : Follows ['@'] (b₁ ++ (q ++ (b₂ ++ (t ++ b₃)))) :=
    .blanks_append hb₁ (Sample.follows_of_spellsAnnotation hi hdecimal)
  have hblank : dropBlanks b₃ = [] := by
    rw [← List.append_nil b₃, dropBlanks_append hb₃]
    rfl
  -- The label of one kind is not found where the samples of the other stand.
  have hlabel : literal? SampleKind.integer.label (dropBlanks (b₂ ++ (t ++ b₃))) = none := by
    rw [dropBlanks_append hb₂]
    cases hd with
    | absent => rw [List.nil_append, hblank]; rfl
    | present _ _ =>
        simp only [List.append_assoc]
        rw [dropBlanks_word_append (d := '@') rfl rfl]
        rfl
  obtain ⟨u, hcread, hu⟩ := Condition.readOptional_eq_ok hc hinteger
  rw [dropBlanks_append hb₁] at hu
  obtain ⟨v, hiread, hv⟩ := Sample.readList_eq_ok hi hdecimal hlabel
  rw [dropBlanks_append hb₂] at hv
  obtain ⟨w, hdread, hw⟩ := Sample.readList_eq_ok hd hend (by rw [hblank]; rfl)
  simp only [Rule.read, List.append_assoc, dropBlanks_append hb₀, bind_eq_ok, Prod.exists]
  refine ⟨c, u, hcread, integers, v, by rw [hu]; exact hiread, decimals, w, ?_, ?_⟩
  · rw [hv]
    exact hdread
  · rw [hw, hblank]
    rfl

/-- Reading a text succeeds with what it spells, and only with that. -/
lemma read_eq_ok_iff : Rule.read s = .ok r ↔ Rule.Spells s r :=
  ⟨spells_of_read, read_eq_ok⟩

lemma ofText_eq_ok_iff {s : String} : Rule.ofText s = .ok r ↔ Rule.Spells s.toList r := by
  rw [← read_eq_ok_iff, Rule.ofText]
  cases Rule.read s.toList <;> simp [Except.mapError]

/-- **The grammar of rules is what is read**: a text is read as a rule exactly if it spells
the rule; no text spells two rules; and a text that spells none is reported as an error. -/
theorem ofText_exact (s : String) :
    (∀ r, Rule.ofText s = .ok r ↔ Rule.Spells s.toList r) ∧
      {r | Rule.Spells s.toList r}.Subsingleton ∧
      ((∃ e, Rule.ofText s = .error e) ↔ ∀ r, ¬Rule.Spells s.toList r) := by
  refine ⟨fun r => ofText_eq_ok_iff, fun r hr r' hr' => ?_, ?_⟩
  · have h : Except.ok r = .ok r' := (ofText_eq_ok_iff.2 hr).symm.trans (ofText_eq_ok_iff.2 hr')
    exact Except.ok.inj h
  · constructor
    · rintro ⟨e, he⟩ r hr
      rw [ofText_eq_ok_iff.2 hr] at he
      exact absurd he nofun
    · intro hnone
      cases hs : Rule.ofText s with
      | error e => exact ⟨e, rfl⟩
      | ok r => exact absurd (ofText_eq_ok_iff.1 hs) (hnone r)

end Rule

end PluralRules
