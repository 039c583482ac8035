import PluralRules.Condition.RuleText
import PluralRules.Proofs.Formula
import PluralRules.Proofs.Grammar.Rule

/-!
What is written spells what it was written from.

The texts of ranges, relations, conditions and samples belong to the grammar of rules, with
the value that they were written from. Lists are written by putting a word between any two
items, so `Grammar.chain_intercalate` carries all of them.

* `Range.spells_text`, `Relation.WellFormed.spells_phrase`: a range, a relation.
* `Condition.Writable.spells_textOfAlternatives`: alternatives, of which none is empty.
* `Operands.spells_text`, `Sample.spells_text`, `Sample.exists_annotation`: a number, a sample,
  the samples of one kind behind their annotation.

A relation can be written if it has ranges and, where it compares with a single value, no other
one: `Relation.WellFormed`.
-/

namespace PluralRules

open Grammar Text Reading

/-! ### Lists -/

namespace Grammar

variable {α β : Type} {mark : List Char → Prop} {item : List Char → α → Prop} {w : String}
  {f : β → String} {g : β → α}

lemma links_intercalate (hmark : mark w.toList) {xs : List β}
    (h : ∀ x ∈ xs, item (f x).toList (g x)) :
    Links mark item (xs.flatMap fun x => w.toList ++ (f x).toList) (xs.map g) := by
  induction xs with
  | nil => exact .nil
  | cons x xs ih =>
      rw [List.forall_mem_cons] at h
      exact .cons hmark h.1 (ih h.2)

lemma toList_intercalate_cons (w x : String) (xs : List String) :
    (w.intercalate (x :: xs)).toList = x.toList ++ xs.flatMap fun y => w.toList ++ y.toList := by
  induction xs generalizing x with
  | nil => simp
  | cons y ys ih =>
      rw [String.intercalate_cons_cons, String.toList_append, String.toList_append, ih,
        List.flatMap_cons]
      simp only [List.append_assoc]

/-- Items that are written with a mark between any two spell the chain of what they spell. -/
theorem chain_intercalate (hmark : mark w.toList) {xs : List β} (hne : xs ≠ [])
    (h : ∀ x ∈ xs, item (f x).toList (g x)) :
    Chain mark item (w.intercalate (xs.map f)).toList (xs.map g) := by
  cases xs with
  | nil => exact absurd rfl hne
  | cons x xs =>
      rw [List.forall_mem_cons] at h
      rw [List.map_cons, toList_intercalate_cons, List.flatMap_map, List.map_cons]
      exact .intro h.1 (links_intercalate hmark h.2)

lemma around_word (w : String) : Around w w.toList := by
  have h : Around w ([] ++ w.toList ++ []) := .intro Blanks.nil Blanks.nil
  rwa [List.nil_append, List.append_nil] at h

end Grammar

/-! ### Ranges -/

/-- An integer is written in digits. -/
lemma Grammar.integer_toString (x : UInt64) : Integer (toString x.toNat).toList x := by
  have hdigits : (toString x.toNat).toList = Nat.toDigits 10 x.toNat := by simp
  rw [hdigits]
  exact ⟨Nat.toDigits_ne_nil, fun c => Numeral.isDigit_of_mem_toDigits,
    Nat.ofDigitChars_ten_toDigits⟩

theorem Range.spells_text (r : Range) : Range.Spells r.text.toList r := by
  rw [text]
  split
  · rename_i h
    have hsingle : r = .single r.low := by
      rw [isSingle, decide_eq_true_iff] at h
      exact Range.ext rfl h.symm
    rw [hsingle]
    exact .single (integer_toString r.low)
  · rw [String.toList_append, String.toList_append]
    exact .span (integer_toString r.low) (around_word "..") (integer_toString r.high)
      r.low_le_high

lemma Range.spellsList_text {ranges : List Range} (h : ranges ≠ []) :
    Range.SpellsList (",".intercalate (ranges.map Range.text)).toList ranges := by
  have hchain := chain_intercalate (g := id) (around_word ",") h fun r _ => r.spells_text
  rwa [List.map_id] at hchain

/-! ### Relations -/

/-- A relation that can be written: there is something to compare with, and only one value
where the comparison is with a single one. -/
structure Relation.WellFormed (r : Relation) : Prop where
  ranges_ne_nil : r.ranges ≠ []
  is_single : r.comparison = .is → ∃ x, r.ranges = [.single x]

/-- An expression is written as its operand, and a modulus of which a blank keeps it apart. -/
lemma Expr.exists_text (x : Expr) : ∃ s, x.text.toList = x.operand.symbol :: s ∧
    Modulus.SpellsOptional s x.modulus? ∧ ∀ t, startsAlphanumeric (s ++ ' ' :: t) = false := by
  rw [text]
  cases x.modulus? with
  | none => exact ⟨[], by simp, .absent, fun t => rfl⟩
  | some m =>
      have hmark : Modulus.SpellsMark ([' '] ++ "mod".toList ++ [' ']) :=
        .mod Gap.space.blanks Gap.space
      exact ⟨_, by simp, .present hmark (integer_toString m.val), fun t => rfl⟩

lemma Range.text_single (x : UInt64) : (Range.single x).text = toString x.toNat := by
  simp [text, isSingle, single]

lemma Grammar.negation_not : Negation "not ".toList true :=
  .present Gap.space

/-- The words and ranges of a relation are written behind a blank. -/
lemma Relation.WellFormed.exists_comparison {r : Relation} (h : r.WellFormed) :
    ∃ t, (r.verb ++ ",".intercalate (r.ranges.map Range.text)).toList = ' ' :: t ∧
      Comparison.Spells t r.negated r.comparison r.ranges := by
  have hlist := Range.spellsList_text h.ranges_ne_nil
  obtain ⟨x, negated, comparison, ranges⟩ := r
  cases comparison with
  | is =>
      obtain ⟨x, rfl⟩ := h.is_single rfl
      cases negated with
      | false =>
          refine ⟨_, ?_, .is Gap.space .absent (integer_toString x)⟩
          simp [verb, Range.text_single]
      | true =>
          refine ⟨_, ?_, .is Gap.space negation_not (integer_toString x)⟩
          simp [verb, Range.text_single]
  | «in» =>
      cases negated with
      | false => exact ⟨_, by simp [verb], .membership .absent .in Gap.space hlist⟩
      | true => exact ⟨_, by simp [verb], .membership negation_not .in Gap.space hlist⟩
  | within =>
      cases negated with
      | false => exact ⟨_, by simp [verb], .membership .absent .within Gap.space hlist⟩
      | true => exact ⟨_, by simp [verb], .membership negation_not .within Gap.space hlist⟩

theorem Relation.WellFormed.spells_phrase {r : Relation} (h : r.WellFormed) :
    Relation.Spells r.phrase.toList r := by
  obtain ⟨s, hs, hmodulus, hapart⟩ := r.expr.exists_text
  obtain ⟨t, ht, hcomparison⟩ := h.exists_comparison
  have hphrase : r.phrase.toList = r.expr.operand.symbol :: (s ++ [' '] ++ t) := by
    rw [phrase, String.append_assoc, String.toList_append, hs, ht, List.cons_append,
      List.append_assoc, List.singleton_append]
  rw [hphrase]
  refine .intro hmodulus Gap.space.blanks hcomparison ?_
  rw [List.append_assoc]
  exact hapart t

/-! ### Conditions -/

/-- Alternatives that can be written: there are some, and each asks for some relations that
can be written. -/
structure Condition.Writable (terms : List (List Relation)) : Prop where
  ne_nil : terms ≠ []
  term_ne_nil : ∀ term ∈ terms, term ≠ []
  wellFormed : ∀ term ∈ terms, ∀ r ∈ term, r.WellFormed

namespace Condition

lemma spellsConjunction_text {term : List Relation} (hne : term ≠ [])
    (h : ∀ r ∈ term, r.WellFormed) :
    SpellsConjunction (" and ".intercalate (term.map Relation.phrase)).toList
      (Formula.ofAtoms term) := by
  have hand : Connective "and" " and ".toList := .intro Gap.space Gap.space
  have hchain := chain_intercalate (g := id) hand hne fun r hr => (h r hr).spells_phrase
  rw [List.map_id] at hchain
  exact spellsConjunction_iff.2 ⟨term, hchain, rfl⟩

lemma textOfAlternatives_of_ne_nil {terms : List (List Relation)} (hne : terms ≠ [])
    (h : ∀ term ∈ terms, term ≠ []) :
    textOfAlternatives terms = " or ".intercalate
      (terms.map fun term => " and ".intercalate (term.map Relation.phrase)) := by
  have hany : terms.any List.isEmpty = false := by
    simpa [List.any_eq_false] using h
  unfold textOfAlternatives
  split
  · exact absurd rfl hne
  · rw [hany, if_neg Bool.false_ne_true]

/-- Alternatives are written as a text that spells the formula of these alternatives. -/
theorem Writable.spells_textOfAlternatives {terms : List (List Relation)} (h : Writable terms) :
    Condition.Spells (textOfAlternatives terms).toList (Formula.ofAlternatives terms) := by
  rw [textOfAlternatives_of_ne_nil h.ne_nil h.term_ne_nil]
  have hor : Connective "or" " or ".toList := .intro Gap.space Gap.space
  refine spells_iff.2
    ⟨terms.map Formula.ofAtoms, chain_intercalate hor h.ne_nil fun term hterm => ?_, rfl⟩
  exact spellsConjunction_text (h.term_ne_nil term hterm) (h.wellFormed term hterm)

end Condition

/-! ### Samples -/

/-- A number is written with its fraction digits and without a sign. -/
theorem Operands.spells_text (o : Operands) : Operands.Spells o.text.toList o := by
  have htext : o.text.toList = o.n.numeral.chars := String.toList_ofList
  rw [htext]
  refine .intro ?_ ?_ ?_
  · exact decide_eq_false (Int.not_lt.2 (Int.natCast_nonneg o.digits))
  · exact Numeral.digitsValue_ofScaled ..
  · exact Numeral.length_fraction_ofScaled ..

theorem Sample.spells_text (s : Sample) : Sample.Spells s.kind s.text.toList s := by
  obtain ⟨kind, low, high?⟩ := s
  cases high? with
  | none =>
      have htext : (Sample.mk kind low none).text = low.text := by simp [text, endpoints]
      rw [htext]
      exact .value low.spells_text
  | some high =>
      have htext : (Sample.mk kind low (some high)).text = low.text ++ "~" ++ high.text := by
        simp [text, endpoints]
      rw [htext, String.toList_append, String.toList_append]
      exact .span low.spells_text (around_word "~") high.spells_text

/-- The samples of one kind in writing, behind a blank and their annotation. Without samples
nothing is written. -/
def SampleKind.annotation (kind : SampleKind) (samples : List Sample) : String :=
  if samples = [] then ""
  else " " ++ kind.label ++ " " ++ ", ".intercalate (samples.map Sample.text)

/-- What is written of the samples of one kind spells these samples behind blanks. -/
theorem Sample.exists_annotation {kind : SampleKind} {samples : List Sample}
    (h : ∀ s ∈ samples, s.kind = kind) : ∃ b t, Blanks b ∧
      Sample.SpellsAnnotation kind t samples ∧ (kind.annotation samples).toList = b ++ t := by
  rw [SampleKind.annotation]
  split
  · rename_i hnil
    subst hnil
    exact ⟨[], [], Blanks.nil, .absent, rfl⟩
  · rename_i hne
    have hcomma : Around "," ", ".toList := .intro Blanks.nil Gap.space.blanks
    have hchain : Chain (Around ",") (Sample.Spells kind)
        (", ".intercalate (samples.map Sample.text)).toList (samples.map id) := by
      refine chain_intercalate hcomma hne fun s hs => ?_
      rw [← h s hs]
      exact s.spells_text
    rw [List.map_id] at hchain
    refine ⟨[' '], _, Gap.space.blanks, .present Gap.space.blanks (.intro hchain .absent), ?_⟩
    simp

end PluralRules
