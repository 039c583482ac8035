import PluralRules.Proofs.Combining

/-!
Texts joined by a connective.

Where two texts of conditions are put behind each other with `and` or `or` between them, the chain
that one of them spells is continued by that of the other, and the condition is the one that the
connective builds.

* `Grammar.Chain.append`: two chains with a mark between them are a chain.
* `Condition.SpellsConjunction.and`, `Condition.Spells.or`: what two texts spell together.
* `Rule.Spells.exists_condition`: a rule without samples is its condition with blanks around it.
* `Rule.ofText_joined`: what two rules are read as when they are joined.
-/

namespace PluralRules

open Grammar Text

/-! ### Chains -/

namespace Grammar

section Chain

variable {α : Type} {mark : List Char → Prop} {item : List Char → α → Prop} {s m t : List Char}
  {xs ys : List α}

/-- Items that follow a first one are followed by a mark and a chain. -/
lemma Links.append (hs : Links mark item s xs) (hm : mark m) (ht : Chain mark item t ys) :
    Links mark item (s ++ (m ++ t)) (xs ++ ys) := by
  induction hs with
  | nil =>
      obtain ⟨hitem, hlinks⟩ := ht
      rw [List.nil_append, ← List.append_assoc]
      exact .cons hm hitem hlinks
  | cons hmark hitem _ ih =>
      rw [List.append_assoc]
      exact .cons hmark hitem ih

/-- Two chains with a mark between them are a chain. -/
theorem Chain.append (hs : Chain mark item s xs) (hm : mark m) (ht : Chain mark item t ys) :
    Chain mark item (s ++ (m ++ t)) (xs ++ ys) := by
  obtain ⟨hitem, hlinks⟩ := hs
  rw [List.append_assoc]
  exact .intro hitem (hlinks.append hm ht)

end Chain

/-- Blanks around a word between spaces make a longer connective. -/
lemma Connective.spaced {b c : List Char} (word : String) (hb : Blanks b) (hc : Blanks c) :
    Connective word (b ++ (' ' :: word.toList ++ [' ']) ++ c) := by
  have hbefore : Gap (b ++ [' ']) :=
    ⟨List.forall_mem_append.2 ⟨hb, Gap.space.blanks⟩, by simp⟩
  have hafter : Gap ([' '] ++ c) :=
    ⟨List.forall_mem_append.2 ⟨Gap.space.blanks, hc⟩, by simp⟩
  have hword : Connective word (b ++ [' '] ++ word.toList ++ ([' '] ++ c)) := .intro hbefore hafter
  simpa only [List.append_assoc, List.cons_append, List.nil_append] using hword

end Grammar

/-! ### Conditions -/

namespace Formula

universe u

variable {α : Type u}

lemma and_ofAtoms (term other : List α) :
    (ofAtoms term).and (ofAtoms other) = ofAtoms (term ++ other) := by
  rw [and, mapChoices_ofAtoms, mapChoices_ofAtoms, group_all_ofAtoms]

/-- A group of parts that are no disjunctions has these disjuncts. -/
lemma disjuncts_group_any {parts : List (Formula α)} (h : ∀ part ∈ parts, ¬ part.IsDisjunction) :
    (group .any parts).disjuncts = parts := by
  rcases group_cases .any parts with ⟨x, rfl, hgroup⟩ | ⟨-, hgroup⟩ <;> rw [hgroup]
  · cases x with
    | any inner => exact absurd ⟨inner, rfl⟩ (h _ (List.mem_singleton_self _))
    | all inner => rfl
    | atom a => rfl
  · rfl

end Formula

namespace Condition

variable {s m t : List Char} {c d : Condition}

lemma SpellsConjunction.not_isDisjunction (h : SpellsConjunction s c) : ¬ c.IsDisjunction := by
  obtain ⟨rs, -, rfl⟩ := spellsConjunction_iff.1 h
  exact Formula.not_isDisjunction_ofAtoms rs

/-- Two conjunctions with `and` between them spell the conjunction of both. -/
theorem SpellsConjunction.and (hs : SpellsConjunction s c) (hm : Connective "and" m)
    (ht : SpellsConjunction t d) : SpellsConjunction (s ++ (m ++ t)) (c.and d) := by
  obtain ⟨rs, hrs, rfl⟩ := spellsConjunction_iff.1 hs
  obtain ⟨rs', hrs', rfl⟩ := spellsConjunction_iff.1 ht
  exact spellsConjunction_iff.2 ⟨rs ++ rs', hrs.append hm hrs', Formula.and_ofAtoms rs rs'⟩

/-- What spells a condition that is no disjunction spells a conjunction. -/
lemma Spells.conjunction (h : Condition.Spells s c) (hc : ¬ c.IsDisjunction) :
    SpellsConjunction s c := by
  cases h with
  | single hc => exact hc
  | group _ _ => exact absurd ⟨_, rfl⟩ hc

/-- Two conditions with `or` between them spell the disjunction of both. -/
theorem Spells.or (hs : Condition.Spells s c) (hm : Connective "or" m) (ht : Condition.Spells t d) :
    Condition.Spells (s ++ (m ++ t)) (c.or d) := by
  obtain ⟨parts, hparts, rfl⟩ := spells_iff.1 hs
  obtain ⟨parts', hparts', rfl⟩ := spells_iff.1 ht
  have hdisjuncts : ∀ {u : List Char} {xs : List Condition},
      Chain (Connective "or") SpellsConjunction u xs → (Formula.group .any xs).disjuncts = xs := by
    intro u xs hxs
    refine Formula.disjuncts_group_any fun x hx => ?_
    obtain ⟨v, hv⟩ := hxs.exists_item x hx
    exact hv.not_isDisjunction
  refine spells_iff.2 ⟨parts ++ parts', hparts.append hm hparts', ?_⟩
  rw [Formula.or, hdisjuncts hparts, hdisjuncts hparts']

end Condition

/-! ### Rules -/

/-- No samples are spelled by no text. -/
lemma Sample.SpellsAnnotation.eq_nil {kind : SampleKind} {t : List Char}
    (h : Sample.SpellsAnnotation kind t []) : t = [] := by
  cases h with
  | absent => rfl
  | present _ hlist =>
      obtain ⟨hchain, -⟩ := hlist
      exact absurd rfl hchain.ne_nil

namespace Rule

variable {r r' : Rule}

/-- A rule without samples, whose condition does not always hold by its shape, is spelled by its
condition with blanks around it. -/
lemma Spells.exists_condition {s : List Char} (h : Rule.Spells s r) (hsamples : r.samples = [])
    (hne : r.condition ≠ .always) :
    ∃ b t e, Blanks b ∧ Condition.Spells t r.condition ∧ Blanks e ∧ s = b ++ t ++ e := by
  obtain ⟨hb₀, hcondition, hb₁, hinteger, hb₂, hdecimal, hb₃⟩ := h
  obtain ⟨rfl, rfl⟩ := List.append_eq_nil_iff.1 hsamples
  obtain rfl := hinteger.eq_nil
  obtain rfl := hdecimal.eq_nil
  cases hcondition with
  | absent => exact absurd rfl hne
  | present hspells =>
      have hend := List.forall_mem_append.2 ⟨hb₁, List.forall_mem_append.2 ⟨hb₂, hb₃⟩⟩
      exact ⟨_, _, _, hb₀, hspells, hend, by simp only [List.append_nil, List.append_assoc]⟩

lemma spells_of_condition {b t e : List Char} {c : Condition} (hb : Blanks b)
    (h : Condition.Spells t c) (he : Blanks e) : Rule.Spells (b ++ t ++ e) ⟨c, []⟩ := by
  simpa only [List.append_nil] using
    Rule.Spells.intro hb (.present h) Blanks.nil .absent Blanks.nil .absent he

/-- **Texts are joined as their conditions are**: of two rules without samples, whose conditions do
not always hold by their shape, the texts joined by `or` are read as the disjunction of the
conditions, and if neither is a disjunction, joined by `and`, as their conjunction. -/
theorem ofText_joined {s t : String} (hs : Rule.ofText s = .ok r) (ht : Rule.ofText t = .ok r')
    (hr : r.samples = [] ∧ r.condition ≠ .always) (hr' : r'.samples = [] ∧ r'.condition ≠ .always) :
    Rule.ofText (s ++ " or " ++ t) = .ok ⟨r.condition.or r'.condition, []⟩ ∧
    (¬ r.condition.IsDisjunction → ¬ r'.condition.IsDisjunction →
      Rule.ofText (s ++ " and " ++ t) = .ok ⟨r.condition.and r'.condition, []⟩) := by
  rw [ofText_eq_ok_iff] at hs ht
  obtain ⟨b, p, e, hb, hp, he, hsplit⟩ := hs.exists_condition hr.1 hr.2
  obtain ⟨b', p', e', hb', hp', he', hsplit'⟩ := ht.exists_condition hr'.1 hr'.2
  have hjoin : ∀ {word : String}, (s ++ word ++ t).toList =
      b ++ (p ++ (e ++ word.toList ++ b' ++ p')) ++ e' := by
    intro word
    simp only [String.toList_append, hsplit, hsplit', List.append_assoc]
  rw [ofText_eq_ok_iff, ofText_eq_ok_iff, hjoin, hjoin]
  refine ⟨spells_of_condition hb (hp.or (Connective.spaced "or" he hb') hp') he', fun hc hc' => ?_⟩
  have hand := (hp.conjunction hc).and (Connective.spaced "and" he hb') (hp'.conjunction hc')
  exact spells_of_condition hb (.single hand) he'

/-- A conjunction and a disjunction, one with blanks behind it and one with blanks before it. -/
theorem ofText_joined_blanks :
    Rule.ofText "n is 1 and v is 0\t or \n i in 2..4 or f within 5" =
      .ok ⟨.any [.all [.atom (Expr.is ⟨.n, none⟩ 1), .atom (Expr.is ⟨.v, none⟩ 0)],
        .atom (Expr.inRanges ⟨.i, none⟩ [⟨2, 4, by decide⟩]),
        .atom (Expr.within ⟨.f, none⟩ [.single 5])], []⟩ ∧
    Rule.ofText "n is 1 and v is 0\t and \n i in 2..4" =
      .ok ⟨.all [.atom (Expr.is ⟨.n, none⟩ 1), .atom (Expr.is ⟨.v, none⟩ 0),
        .atom (Expr.inRanges ⟨.i, none⟩ [⟨2, 4, by decide⟩])], []⟩ := by
  have hfirst : Rule.ofText "n is 1 and v is 0\t" = .ok ⟨.all [.atom (Expr.is ⟨.n, none⟩ 1),
      .atom (Expr.is ⟨.v, none⟩ 0)], []⟩ := by decide +kernel
  have hsecond : Rule.ofText "\n i in 2..4 or f within 5" =
      .ok ⟨.any [.atom (Expr.inRanges ⟨.i, none⟩ [⟨2, 4, by decide⟩]),
        .atom (Expr.within ⟨.f, none⟩ [.single 5])], []⟩ := by decide +kernel
  have hthird : Rule.ofText "\n i in 2..4" =
      .ok ⟨.atom (Expr.inRanges ⟨.i, none⟩ [⟨2, 4, by decide⟩]), []⟩ := by decide +kernel
  constructor
  · exact (ofText_joined hfirst hsecond ⟨rfl, by decide⟩ ⟨rfl, by decide⟩).1
  · refine (ofText_joined hfirst hthird ⟨rfl, by decide⟩ ⟨rfl, by decide⟩).2 ?_ ?_
    · rintro ⟨parts, h⟩
      cases h
    · rintro ⟨parts, h⟩
      cases h

end Rule

end PluralRules
