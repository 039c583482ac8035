import PluralRules.Proofs.Formula
import PluralRules.Proofs.Grammar.Basic
import PluralRules.Rule

/-!
The grammar of rules.

`Rule.Spells s r` says that the text `s` spells the rule `r`. It is put together from the same
relation for each part of a rule, from integers up.

* `Grammar.Integer`, `Modulus.Spells`, `Range.Spells`, `Range.SpellsList`: what is made of
  digits.
* `Comparison.Spells`: a comparison with what it compares with.
* `Relation.Spells`, `Condition.SpellsConjunction`, `Condition.Spells`: relations joined by
  `and`, and these by `or`.
* `Operands.Spells`, `Sample.Spells`, `Sample.SpellsList`, `Sample.SpellsAnnotation`: the
  samples of one kind.
* `Rule.Spells`: the whole text.

A numeric limit of the grammar is a limit of the type that is spelled: an integer has 64
bits, a modulus is not zero, the bounds of a range are in order, a number has at most 28
fraction digits and 96 bits.
-/

namespace PluralRules

open Grammar Text Reading

/-! ### Integers, moduli, ranges -/

/-- A text of digits spells an integer of 64 bits; its first digits may be zeros. -/
structure Grammar.Integer (s : List Char) (x : UInt64) : Prop where
  ne_nil : s ≠ []
  isDigit : ∀ c ∈ s, c.isDigit
  value : Nat.ofDigitChars 10 s 0 = x.toNat

/-- A text spells a modulus. -/
def Modulus.Spells (s : List Char) (m : Modulus) : Prop :=
  Integer s m.val

/-- A text spells a range: one value, or two with points between them. -/
inductive Range.Spells : List Char → Range → Prop where
  | single {s : List Char} {x : UInt64} (value : Integer s x) : Range.Spells s (.single x)
  | span {s t u : List Char} {low high : UInt64} (lower : Integer s low) (points : Around ".." t)
      (upper : Integer u high) (h : low ≤ high) : Range.Spells (s ++ t ++ u) ⟨low, high, h⟩

/-- A text spells ranges with commas between them. -/
def Range.SpellsList : List Char → List Range → Prop :=
  Chain (Around ",") Range.Spells

/-! ### Relations -/

/-- The word or sign between an operand and its modulus. Only the word demands blanks
behind it. -/
inductive Modulus.SpellsMark : List Char → Prop where
  | mod {b c : List Char} (before : Blanks b) (after : Gap c) :
      Modulus.SpellsMark (b ++ "mod".toList ++ c)
  | percent {t : List Char} (sign : Around "%" t) : Modulus.SpellsMark t

/-- A text spells what stands between an operand and a comparison. -/
inductive Modulus.SpellsOptional : List Char → Option Modulus → Prop where
  | absent : Modulus.SpellsOptional [] none
  | present {s t : List Char} {m : Modulus} (mark : Modulus.SpellsMark s)
      (modulus : Modulus.Spells t m) : Modulus.SpellsOptional (s ++ t) (some m)

/-- A text spells whether a comparison is negated by a word. -/
inductive Grammar.Negation : List Char → Bool → Prop where
  | absent : Negation [] false
  | present {b : List Char} (after : Gap b) : Negation ("not".toList ++ b) true

/-- The word for membership in ranges. -/
inductive Comparison.Word : String → Comparison → Prop where
  | in : Comparison.Word "in" .in
  | within : Comparison.Word "within" .within

/-- A text spells a comparison, whether it is negated, and the ranges that it compares with. -/
inductive Comparison.Spells : List Char → Bool → Comparison → List Range → Prop where
  | is {b s t : List Char} {negated : Bool} {x : UInt64} (after : Gap b)
      (negation : Negation s negated) (value : Integer t x) :
      Comparison.Spells ("is".toList ++ b ++ s ++ t) negated .is [.single x]
  | equal {b t : List Char} {ranges : List Range} (after : Blanks b)
      (list : Range.SpellsList t ranges) : Comparison.Spells ("=".toList ++ b ++ t) false .in ranges
  | notEqual {b t : List Char} {ranges : List Range} (after : Blanks b)
      (list : Range.SpellsList t ranges) : Comparison.Spells ("!=".toList ++ b ++ t) true .in ranges
  | membership {s b t : List Char} {negated : Bool} {w : String} {c : Comparison}
      {ranges : List Range} (negation : Negation s negated) (word : Comparison.Word w c)
      (after : Gap b) (list : Range.SpellsList t ranges) :
      Comparison.Spells (s ++ w.toList ++ b ++ t) negated c ranges

/-- A text spells a relation. No letter or digit may touch the operand, so that blanks stand
before a word; behind the digits of a modulus there need not be any. -/
inductive Relation.Spells : List Char → Relation → Prop where
  | intro {o : Operand} {s b t : List Char} {m? : Option Modulus} {negated : Bool}
      {c : Comparison} {ranges : List Range} (modulus : Modulus.SpellsOptional s m?)
      (between : Blanks b) (comparison : Comparison.Spells t negated c ranges)
      (apart : startsAlphanumeric (s ++ b ++ t) = false) :
      Relation.Spells (o.symbol :: (s ++ b ++ t)) ⟨⟨o, m?⟩, negated, c, ranges⟩

/-! ### Conditions -/

/-- A text spells relations joined by `and`: a single one by itself, two or more as a group. -/
inductive Condition.SpellsConjunction : List Char → Condition → Prop where
  | single {s : List Char} {r : Relation} (relation : Relation.Spells s r) :
      Condition.SpellsConjunction s (.atom r)
  | group {s : List Char} {rs : List Relation}
      (chain : Chain (Connective "and") Relation.Spells s rs) (two : 2 ≤ rs.length) :
      Condition.SpellsConjunction s (.all (rs.map .atom))

/-- A text spells conjunctions joined by `or`: a single one by itself, two or more as a group. -/
inductive Condition.Spells : List Char → Condition → Prop where
  | single {s : List Char} {c : Condition} (conjunction : Condition.SpellsConjunction s c) :
      Condition.Spells s c
  | group {s : List Char} {parts : List Condition}
      (chain : Chain (Connective "or") Condition.SpellsConjunction s parts)
      (two : 2 ≤ parts.length) : Condition.Spells s (.any parts)

/-- A text spells a condition, or is empty and spells the one that always holds. -/
inductive Condition.SpellsOptional : List Char → Condition → Prop where
  | absent : Condition.SpellsOptional [] .always
  | present {s : List Char} {c : Condition} (condition : Condition.Spells s c) :
      Condition.SpellsOptional s c

namespace Condition

variable {s : List Char} {c : Condition}

/-- A text spells the group of the relations that it joins, or the only one. -/
lemma spellsConjunction_iff : SpellsConjunction s c ↔
    ∃ rs, Chain (Connective "and") Relation.Spells s rs ∧
      c = Formula.group .all (rs.map .atom) := by
  constructor
  · intro h
    cases h with
    | @single r hr => exact ⟨[r], chain_singleton_iff.2 hr, rfl⟩
    | @group rs hrs htwo =>
        refine ⟨rs, hrs, (Formula.group_of_two_le ?_ .all).symm⟩
        rwa [List.length_map]
  · rintro ⟨rs, hrs, rfl⟩
    match rs, hrs.ne_nil with
    | [r], _ => exact .single (chain_singleton_iff.1 hrs)
    | r :: r' :: rest, _ => exact .group hrs (by simp)

/-- A text spells the group of the conjunctions that it joins, or the only one. -/
lemma spells_iff : Condition.Spells s c ↔
    ∃ parts, Chain (Connective "or") SpellsConjunction s parts ∧ c = Formula.group .any parts := by
  constructor
  · intro h
    cases h with
    | single hc => exact ⟨[c], chain_singleton_iff.2 hc, rfl⟩
    | @group parts hparts htwo =>
        exact ⟨parts, hparts, (Formula.group_of_two_le htwo .any).symm⟩
  · rintro ⟨parts, hparts, rfl⟩
    match parts, hparts.ne_nil with
    | [part], _ => exact .single (chain_singleton_iff.1 hparts)
    | part :: part' :: rest, _ => exact .group hparts (by simp)

end Condition

/-! ### Samples -/

/-- A text spells a number without a sign, in digits with a point among them or without. -/
inductive Operands.Spells : List Char → Operands → Prop where
  | intro {x : Numeral} {o : Operands} (sign : x.negative = false)
      (digits : x.digitsValue = o.digits) (fraction : x.fraction.length = o.v) :
      Operands.Spells x.chars o

/-- A text spells a sample: one number, or two with a tilde between them. -/
inductive Sample.Spells (kind : SampleKind) : List Char → Sample → Prop where
  | value {s : List Char} {o : Operands} (low : Operands.Spells s o) :
      Sample.Spells kind s ⟨kind, o, none⟩
  | span {s t u : List Char} {o p : Operands} (low : Operands.Spells s o) (tilde : Around "~" t)
      (high : Operands.Spells u p) : Sample.Spells kind (s ++ t ++ u) ⟨kind, o, some p⟩

/-- What may stand behind a list of samples: an ellipsis, as one character or as three
points, with a comma before it. -/
inductive Sample.Ending : List Char → Prop where
  | absent : Sample.Ending []
  | ellipsis {t : List Char} (comma : Around "," t) : Sample.Ending (t ++ "…".toList)
  | points {t : List Char} (comma : Around "," t) : Sample.Ending (t ++ "...".toList)

/-- A text spells samples with commas between them. -/
inductive Sample.SpellsList (kind : SampleKind) : List Char → List Sample → Prop where
  | intro {s t : List Char} {xs : List Sample} (list : Chain (Around ",") (Sample.Spells kind) s xs)
      (ending : Sample.Ending t) : Sample.SpellsList kind (s ++ t) xs

/-- A text spells the samples of one kind behind their annotation, or is empty and spells
none. -/
inductive Sample.SpellsAnnotation (kind : SampleKind) : List Char → List Sample → Prop where
  | absent : Sample.SpellsAnnotation kind [] []
  | present {b s : List Char} {xs : List Sample} (after : Blanks b)
      (list : Sample.SpellsList kind s xs) :
      Sample.SpellsAnnotation kind (kind.label.toList ++ b ++ s) xs

/-! ### Rules -/

/-- A text spells a rule: a condition, the integer samples and the decimal samples, each of
which may be missing, with blanks around them. -/
inductive Rule.Spells : List Char → Rule → Prop where
  | intro {b₀ s b₁ t b₂ u b₃ : List Char} {c : Condition} {integers decimals : List Sample}
      (blanks₀ : Blanks b₀) (condition : Condition.SpellsOptional s c)
      (blanks₁ : Blanks b₁) (integer : Sample.SpellsAnnotation .integer t integers)
      (blanks₂ : Blanks b₂) (decimal : Sample.SpellsAnnotation .decimal u decimals)
      (blanks₃ : Blanks b₃) :
      Rule.Spells (b₀ ++ s ++ b₁ ++ t ++ b₂ ++ u ++ b₃) ⟨c, integers ++ decimals⟩

end PluralRules
