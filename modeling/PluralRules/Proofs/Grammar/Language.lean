import Mathlib
import PluralRules.Proofs.Grammar.Rule

/-!
The languages of the grammar.

`Rule.Spells` says which text spells which rule. Here is which texts spell some rule, one language
for each piece of the grammar. The numeric limits are kept apart from the structure: each language
has the parameter `limits`, and what bounds a number is asked for if `limits` holds. So
`Grammar.rule True` are the texts of rules, and `Grammar.rule False` are the texts that have the
structure of a rule, whatever the size of its numbers.

* `Grammar.integer`, `Grammar.modulus`, `Grammar.span`, `Grammar.number`: the pieces with a limit.
* `Grammar.comparison`, `Grammar.relation`, `Grammar.condition`, `Grammar.samples`,
  `Grammar.rule`: the pieces that are made of them.
* `Grammar.mem_rule_iff`: with the limits, the language of rules is what `Rule.Spells` says.
-/

namespace PluralRules.Grammar

open Reading Text
open scoped Computability

/-! ### Words and blanks -/

/-- A single word. -/
def word (w : String) : Language Char :=
  {w.toList}

/-- A run of blanks, perhaps empty. -/
def blanks : Language Char :=
  {s | Blanks s}

/-- A run of blanks that is not empty. -/
def gap : Language Char :=
  {s | Gap s}

/-- A word with blanks around it, or without. -/
def around (w : String) : Language Char :=
  blanks * word w * blanks

/-- A word with blanks around it. -/
def connective (w : String) : Language Char :=
  gap * word w * gap

/-- One or more items, with a mark between any two. -/
def items (mark item : Language Char) : Language Char :=
  item * (mark * item)∗

section Languages

variable (limits : Prop)

/-! ### Integers, moduli, ranges -/

/-- Digits. The limit is that the integer has 64 bits. -/
def integer : Language Char :=
  {s | s ≠ [] ∧ (∀ c ∈ s, c.isDigit) ∧ (limits → Nat.ofDigitChars 10 s 0 < 2 ^ 64)}

/-- An integer, which has a limit more: it is not zero. -/
def modulus : Language Char :=
  {s | s ∈ integer limits ∧ (limits → Nat.ofDigitChars 10 s 0 ≠ 0)}

/-- Two integers with points between them. The limit is that they are in order. -/
def span : Language Char :=
  {r | ∃ s ∈ integer limits, ∃ t ∈ around "..", ∃ u ∈ integer limits, s ++ t ++ u = r ∧
    (limits → Nat.ofDigitChars 10 s 0 ≤ Nat.ofDigitChars 10 u 0)}

/-- One integer, or the two bounds of a span. -/
def range : Language Char :=
  integer limits + span limits

/-- Ranges with commas between them. -/
def ranges : Language Char :=
  items (around ",") (range limits)

/-! ### Relations -/

/-- The word or sign between an operand and its modulus. -/
def modulusMark : Language Char :=
  blanks * word "mod" * gap + around "%"

/-- What stands between an operand and a comparison, blanks apart. -/
def reduction : Language Char :=
  1 + modulusMark * modulus limits

/-- The word that negates a comparison, or nothing. -/
def negation : Language Char :=
  1 + word "not" * gap

/-- A comparison with what it compares with. -/
def comparison : Language Char :=
  word "is" * gap * negation * integer limits +
  word "=" * blanks * ranges limits +
  word "!=" * blanks * ranges limits +
  negation * (word "in" + word "within") * gap * ranges limits

/-- An operand, perhaps reduced, and a comparison. No letter or digit touches the operand. -/
def relation : Language Char :=
  {r | ∃ o : Operand, ∃ s ∈ reduction limits * blanks * comparison limits,
    startsAlphanumeric s = false ∧ o.symbol :: s = r}

/-! ### Conditions -/

/-- Relations joined by `and`. -/
def conjunction : Language Char :=
  items (connective "and") (relation limits)

/-- Conjunctions joined by `or`. -/
def condition : Language Char :=
  items (connective "or") (conjunction limits)

/-! ### Samples -/

/-- A number without a sign. The limits are 96 bits and 28 fraction digits. -/
def number : Language Char :=
  {s | ∃ x : Numeral, x.negative = false ∧ x.chars = s ∧
    (limits → x.digitsValue < 2 ^ 96 ∧ x.fraction.length ≤ 28)}

/-- One number, or two with a tilde between them. -/
def sample : Language Char :=
  number limits + number limits * around "~" * number limits

/-- An ellipsis with a comma before it, or nothing. -/
def ending : Language Char :=
  1 + around "," * (word "…" + word "...")

/-- The samples of one kind behind their annotation, or nothing. -/
def samples (kind : SampleKind) : Language Char :=
  1 + word kind.label * blanks * (items (around ",") (sample limits) * ending)

/-! ### Rules -/

/-- A condition, the integer samples and the decimal samples, each of which may be missing, with
blanks around them. -/
def rule : Language Char :=
  blanks * (1 + condition limits) * blanks * samples limits .integer * blanks *
    samples limits .decimal * blanks

end Languages

/-! ### The texts that spell something

With the limits, each language consists of the texts that spell a value. -/

section Words

variable {w : String} {s : List Char}

lemma mem_blanks_iff : s ∈ blanks ↔ Blanks s :=
  Iff.rfl

lemma mem_around_iff : s ∈ around w ↔ Around w s := by
  constructor
  · rintro ⟨_, ⟨b, hb, _, rfl, rfl⟩, c, hc, rfl⟩
    exact .intro hb hc
  · rintro ⟨hb, hc⟩
    exact Language.append_mem_mul (Language.append_mem_mul hb rfl) hc

lemma mem_connective_iff : s ∈ connective w ↔ Connective w s := by
  constructor
  · rintro ⟨_, ⟨b, hb, _, rfl, rfl⟩, c, hc, rfl⟩
    exact .intro hb hc
  · rintro ⟨hb, hc⟩
    exact Language.append_mem_mul (Language.append_mem_mul hb rfl) hc

end Words

section Items

variable {α : Type} {mark item : Language Char} {isMark : List Char → Prop}
  {isItem : List Char → α → Prop} {s : List Char}

lemma mem_kstar_iff {l : Language Char} :
    s ∈ l∗ ↔ s = [] ∨ ∃ t ∈ l, ∃ u ∈ l∗, t ++ u = s := by
  conv_lhs => rw [← Language.one_add_self_mul_kstar_eq_kstar, Language.mem_add, Language.mem_one,
    Language.mem_mul]

/-- Items are a chain, if the texts of each are those that spell something. -/
lemma mem_items_iff (hmark : ∀ s, s ∈ mark ↔ isMark s) (hitem : ∀ s, s ∈ item ↔ ∃ x, isItem s x) :
    s ∈ items mark item ↔ ∃ xs, Chain isMark isItem s xs := by
  constructor
  · rintro ⟨t, ht, _, ⟨links, rfl, hlinks⟩, rfl⟩
    obtain ⟨x, hx⟩ := (hitem t).1 ht
    suffices hrest : ∃ xs, Links isMark isItem links.flatten xs by
      obtain ⟨xs, hxs⟩ := hrest
      exact ⟨_, .intro hx hxs⟩
    clear ht hx
    induction links with
    | nil => exact ⟨[], .nil⟩
    | cons link links ih =>
        obtain ⟨hlink, hmore⟩ := List.forall_mem_cons.1 hlinks
        obtain ⟨m, hm, i, hi, rfl⟩ := hlink
        obtain ⟨y, hy⟩ := (hitem i).1 hi
        obtain ⟨xs, hxs⟩ := ih hmore
        exact ⟨_, .cons ((hmark m).1 hm) hy hxs⟩
  · rintro ⟨xs, hx, hxs⟩
    refine Language.append_mem_mul ((hitem _).2 ⟨_, hx⟩) ?_
    clear hx
    induction hxs with
    | nil => exact Language.nil_mem_kstar _
    | cons hm hi _ ih =>
        have hlink := Language.append_mem_mul ((hmark _).2 hm) ((hitem _).2 ⟨_, hi⟩)
        exact mem_kstar_iff.2 (.inr ⟨_, hlink, _, ih, rfl⟩)

end Items

variable {s : List Char}

lemma mem_integer_iff : s ∈ integer True ↔ ∃ x, Integer s x := by
  constructor
  · rintro ⟨hne, hdigit, hlimit⟩
    refine ⟨.ofNat (Nat.ofDigitChars 10 s 0), hne, hdigit, ?_⟩
    rw [UInt64.toNat_ofNat_of_lt' (hlimit trivial)]
  · rintro ⟨x, h⟩
    refine ⟨h.ne_nil, h.isDigit, fun _ => ?_⟩
    rw [h.value]
    exact x.toNat_lt

lemma mem_modulus_iff : s ∈ modulus True ↔ ∃ m, Modulus.Spells s m := by
  constructor
  · rintro ⟨hs, hlimit⟩
    obtain ⟨x, hx⟩ := mem_integer_iff.1 hs
    refine ⟨⟨x, ?_⟩, hx⟩
    rintro rfl
    exact hlimit trivial hx.value
  · rintro ⟨m, h⟩
    refine ⟨mem_integer_iff.2 ⟨_, h⟩, fun _ hzero => m.ne_zero ?_⟩
    rw [← UInt64.toNat_inj, ← Integer.value h, hzero]
    rfl

lemma mem_range_iff : s ∈ range True ↔ ∃ r, Range.Spells s r := by
  constructor
  · rintro (hs | ⟨s, hs, t, ht, u, hu, rfl, hlimit⟩)
    · obtain ⟨x, hx⟩ := mem_integer_iff.1 hs
      exact ⟨_, .single hx⟩
    · obtain ⟨low, hlow⟩ := mem_integer_iff.1 hs
      obtain ⟨high, hhigh⟩ := mem_integer_iff.1 hu
      have hle : low ≤ high := by
        rw [UInt64.le_iff_toNat_le, ← hlow.value, ← hhigh.value]
        exact hlimit trivial
      exact ⟨_, .span hlow (mem_around_iff.1 ht) hhigh hle⟩
  · rintro ⟨r, h⟩
    cases h with
    | single h => exact .inl (mem_integer_iff.2 ⟨_, h⟩)
    | span hlow ht hhigh hle =>
        refine .inr ⟨_, mem_integer_iff.2 ⟨_, hlow⟩, _, mem_around_iff.2 ht, _,
          mem_integer_iff.2 ⟨_, hhigh⟩, rfl, fun _ => ?_⟩
        rw [hlow.value, hhigh.value]
        exact UInt64.le_iff_toNat_le.1 hle

lemma mem_ranges_iff : s ∈ ranges True ↔ ∃ rs, Range.SpellsList s rs :=
  mem_items_iff (fun _ => mem_around_iff) fun _ => mem_range_iff

lemma mem_modulusMark_iff : s ∈ modulusMark ↔ Modulus.SpellsMark s := by
  constructor
  · rintro (⟨_, ⟨b, hb, _, rfl, rfl⟩, c, hc, rfl⟩ | hs)
    · exact .mod hb hc
    · exact .percent (mem_around_iff.1 hs)
  · intro h
    cases h with
    | mod hb hc => exact .inl (Language.append_mem_mul (Language.append_mem_mul hb rfl) hc)
    | percent h => exact .inr (mem_around_iff.2 h)

lemma mem_reduction_iff : s ∈ reduction True ↔ ∃ m?, Modulus.SpellsOptional s m? := by
  constructor
  · rintro (hs | ⟨t, ht, u, hu, rfl⟩)
    · obtain rfl : s = [] := hs
      exact ⟨none, .absent⟩
    · obtain ⟨m, hm⟩ := mem_modulus_iff.1 hu
      exact ⟨some m, .present (mem_modulusMark_iff.1 ht) hm⟩
  · rintro ⟨m?, h⟩
    cases h with
    | absent => exact .inl rfl
    | present ht hm =>
        exact .inr (Language.append_mem_mul (mem_modulusMark_iff.2 ht) (mem_modulus_iff.2 ⟨_, hm⟩))

lemma mem_negation_iff : s ∈ negation ↔ ∃ negated, Negation s negated := by
  constructor
  · rintro (hs | ⟨_, rfl, b, hb, rfl⟩)
    · obtain rfl : s = [] := hs
      exact ⟨false, .absent⟩
    · exact ⟨true, .present hb⟩
  · rintro ⟨negated, h⟩
    cases h with
    | absent => exact .inl rfl
    | present hb => exact .inr (Language.append_mem_mul rfl hb)

lemma mem_comparison_iff :
    s ∈ comparison True ↔ ∃ negated c rs, Comparison.Spells s negated c rs := by
  constructor
  · rintro (((⟨_, ⟨_, ⟨_, rfl, b, hb, rfl⟩, n, hn, rfl⟩, t, ht, rfl⟩ |
      ⟨_, ⟨_, rfl, b, hb, rfl⟩, t, ht, rfl⟩) | ⟨_, ⟨_, rfl, b, hb, rfl⟩, t, ht, rfl⟩) |
      ⟨_, ⟨_, ⟨n, hn, _, hw, rfl⟩, b, hb, rfl⟩, t, ht, rfl⟩)
    · obtain ⟨negated, hn⟩ := mem_negation_iff.1 hn
      obtain ⟨x, hx⟩ := mem_integer_iff.1 ht
      exact ⟨_, _, _, .is hb hn hx⟩
    · obtain ⟨rs, hrs⟩ := mem_ranges_iff.1 ht
      exact ⟨_, _, _, .equal hb hrs⟩
    · obtain ⟨rs, hrs⟩ := mem_ranges_iff.1 ht
      exact ⟨_, _, _, .notEqual hb hrs⟩
    · obtain ⟨negated, hn⟩ := mem_negation_iff.1 hn
      obtain ⟨rs, hrs⟩ := mem_ranges_iff.1 ht
      rcases hw with rfl | rfl
      · exact ⟨_, _, _, .membership hn .in hb hrs⟩
      · exact ⟨_, _, _, .membership hn .within hb hrs⟩
  · rintro ⟨negated, c, rs, h⟩
    cases h with
    | is hb hn hx =>
        refine .inl (.inl (.inl ?_))
        exact Language.append_mem_mul (Language.append_mem_mul (Language.append_mem_mul rfl hb)
          (mem_negation_iff.2 ⟨_, hn⟩)) (mem_integer_iff.2 ⟨_, hx⟩)
    | equal hb hrs =>
        refine .inl (.inl (.inr ?_))
        exact Language.append_mem_mul (Language.append_mem_mul rfl hb) (mem_ranges_iff.2 ⟨_, hrs⟩)
    | notEqual hb hrs =>
        refine .inl (.inr ?_)
        exact Language.append_mem_mul (Language.append_mem_mul rfl hb) (mem_ranges_iff.2 ⟨_, hrs⟩)
    | @membership _ _ _ _ w _ _ hn hw hb hrs =>
        have hword : w.toList ∈ word "in" + word "within" := by
          cases hw with
          | «in» => exact .inl rfl
          | within => exact .inr rfl
        refine .inr ?_
        exact Language.append_mem_mul (Language.append_mem_mul (Language.append_mem_mul
          (mem_negation_iff.2 ⟨_, hn⟩) hword) hb) (mem_ranges_iff.2 ⟨_, hrs⟩)

lemma mem_relation_iff : s ∈ relation True ↔ ∃ r, Relation.Spells s r := by
  constructor
  · rintro ⟨o, _, ⟨_, ⟨m, hm, b, hb, rfl⟩, t, ht, rfl⟩, hapart, rfl⟩
    obtain ⟨m?, hm⟩ := mem_reduction_iff.1 hm
    obtain ⟨negated, c, rs, ht⟩ := mem_comparison_iff.1 ht
    exact ⟨_, .intro hm hb ht hapart⟩
  · rintro ⟨r, hm, hb, ht, hapart⟩
    refine ⟨_, _, ?_, hapart, rfl⟩
    exact Language.append_mem_mul (Language.append_mem_mul (mem_reduction_iff.2 ⟨_, hm⟩) hb)
      (mem_comparison_iff.2 ⟨_, _, _, ht⟩)

lemma mem_conjunction_iff : s ∈ conjunction True ↔ ∃ c, Condition.SpellsConjunction s c := by
  rw [conjunction, mem_items_iff (fun _ => mem_connective_iff) fun _ => mem_relation_iff]
  constructor
  · rintro ⟨rs, hrs⟩
    exact ⟨_, Condition.spellsConjunction_iff.2 ⟨rs, hrs, rfl⟩⟩
  · rintro ⟨c, hc⟩
    obtain ⟨rs, hrs, -⟩ := Condition.spellsConjunction_iff.1 hc
    exact ⟨rs, hrs⟩

lemma mem_condition_iff : s ∈ condition True ↔ ∃ c, Condition.Spells s c := by
  rw [condition, mem_items_iff (fun _ => mem_connective_iff) fun _ => mem_conjunction_iff]
  constructor
  · rintro ⟨parts, hparts⟩
    exact ⟨_, Condition.spells_iff.2 ⟨parts, hparts, rfl⟩⟩
  · rintro ⟨c, hc⟩
    obtain ⟨parts, hparts, -⟩ := Condition.spells_iff.1 hc
    exact ⟨parts, hparts⟩

lemma mem_number_iff : s ∈ number True ↔ ∃ o, Operands.Spells s o := by
  constructor
  · rintro ⟨x, hsign, rfl, hlimits⟩
    obtain ⟨hdigits, hfraction⟩ := hlimits trivial
    exact ⟨⟨x.digitsValue, x.fraction.length, hdigits, hfraction⟩, .intro hsign rfl rfl⟩
  · rintro ⟨o, hsign, hdigits, hfraction⟩
    refine ⟨_, hsign, rfl, fun _ => ?_⟩
    rw [hdigits, hfraction]
    exact ⟨o.digits_lt, o.v_le⟩

lemma mem_sample_iff {kind : SampleKind} : s ∈ sample True ↔ ∃ x, Sample.Spells kind s x := by
  constructor
  · rintro (hs | ⟨_, ⟨s, hs, t, ht, rfl⟩, u, hu, rfl⟩)
    · obtain ⟨o, ho⟩ := mem_number_iff.1 hs
      exact ⟨_, .value ho⟩
    · obtain ⟨o, ho⟩ := mem_number_iff.1 hs
      obtain ⟨p, hp⟩ := mem_number_iff.1 hu
      exact ⟨_, .span ho (mem_around_iff.1 ht) hp⟩
  · rintro ⟨x, h⟩
    cases h with
    | value ho => exact .inl (mem_number_iff.2 ⟨_, ho⟩)
    | span ho ht hp =>
        refine .inr ?_
        exact Language.append_mem_mul (Language.append_mem_mul (mem_number_iff.2 ⟨_, ho⟩)
          (mem_around_iff.2 ht)) (mem_number_iff.2 ⟨_, hp⟩)

lemma mem_ending_iff : s ∈ ending ↔ Sample.Ending s := by
  constructor
  · rintro (hs | ⟨t, ht, _, rfl | rfl, rfl⟩)
    · obtain rfl : s = [] := hs
      exact .absent
    · exact .ellipsis (mem_around_iff.1 ht)
    · exact .points (mem_around_iff.1 ht)
  · intro h
    cases h with
    | absent => exact .inl rfl
    | ellipsis ht => exact .inr (Language.append_mem_mul (mem_around_iff.2 ht) (.inl rfl))
    | points ht => exact .inr (Language.append_mem_mul (mem_around_iff.2 ht) (.inr rfl))

lemma mem_samples_iff {kind : SampleKind} :
    s ∈ samples True kind ↔ ∃ xs, Sample.SpellsAnnotation kind s xs := by
  have hitems : ∀ t, t ∈ items (around ",") (sample True) ↔
      ∃ xs, Chain (Around ",") (Sample.Spells kind) t xs :=
    fun t => mem_items_iff (fun _ => mem_around_iff) fun _ => mem_sample_iff
  constructor
  · rintro (hs | ⟨_, ⟨_, rfl, b, hb, rfl⟩, _, ⟨t, ht, e, he, rfl⟩, rfl⟩)
    · obtain rfl : s = [] := hs
      exact ⟨[], .absent⟩
    · obtain ⟨xs, hxs⟩ := (hitems t).1 ht
      exact ⟨xs, .present hb (.intro hxs (mem_ending_iff.1 he))⟩
  · rintro ⟨xs, h⟩
    cases h with
    | absent => exact .inl rfl
    | present hb hlist =>
        obtain ⟨hxs, he⟩ := hlist
        refine .inr (Language.append_mem_mul (Language.append_mem_mul rfl hb) ?_)
        exact Language.append_mem_mul ((hitems _).2 ⟨_, hxs⟩) (mem_ending_iff.2 he)

/-- With the limits, the language of rules consists of the texts that spell a rule. -/
theorem mem_rule_iff : s ∈ rule True ↔ ∃ r, Rule.Spells s r := by
  constructor
  · rintro ⟨_, ⟨_, ⟨_, ⟨_, ⟨_, ⟨b₀, hb₀, c, hc, rfl⟩, b₁, hb₁, rfl⟩, t, ht, rfl⟩, b₂, hb₂, rfl⟩,
      u, hu, rfl⟩, b₃, hb₃, rfl⟩
    obtain ⟨integers, hintegers⟩ := mem_samples_iff.1 ht
    obtain ⟨decimals, hdecimals⟩ := mem_samples_iff.1 hu
    rcases hc with hc | hc
    · obtain rfl : c = [] := hc
      exact ⟨_, .intro hb₀ .absent hb₁ hintegers hb₂ hdecimals hb₃⟩
    · obtain ⟨x, hx⟩ := mem_condition_iff.1 hc
      exact ⟨_, .intro hb₀ (.present hx) hb₁ hintegers hb₂ hdecimals hb₃⟩
  · rintro ⟨r, hb₀, hc, hb₁, hintegers, hb₂, hdecimals, hb₃⟩
    rename_i b₀ c b₁ t b₂ u b₃ x integers decimals
    have hcondition : c ∈ 1 + condition True := by
      cases hc with
      | absent => exact .inl rfl
      | present h => exact .inr (mem_condition_iff.2 ⟨_, h⟩)
    refine Language.append_mem_mul ?_ hb₃
    refine Language.append_mem_mul ?_ (mem_samples_iff.2 ⟨_, hdecimals⟩)
    refine Language.append_mem_mul ?_ hb₂
    refine Language.append_mem_mul ?_ (mem_samples_iff.2 ⟨_, hintegers⟩)
    exact Language.append_mem_mul (Language.append_mem_mul hb₀ hcondition) hb₁

end PluralRules.Grammar
