import PluralRules.Proofs.Reading.Rule
import PluralRules.Proofs.Writing

/-!
Rules are read back from their text.

A condition is canonical if it has the shape that its text can tell: a disjunction of
conjunctions of relations, without a group of one part, or the condition that always holds.

* `Condition.Canonical`: canonical conditions. They are `always` and the formulas of the
  alternatives that can be written (`Condition.Canonical.eq_ofAlternatives`,
  `Condition.Writable.canonical_ofAlternatives`).
* `Condition.canonical_of_spells`, `Condition.Canonical.spells_text`: what is spelled is canonical,
  and the text of a canonical condition spells it.
* `Rule.ofText_text`: a rule with a canonical condition is read back from its text, with all
  its samples.
-/

namespace PluralRules

namespace Condition

/-! ### Canonical conditions -/

/-- A relation that can be written, or at least two of them that have to hold together. -/
inductive IsConjunction : Condition → Prop where
  | atom {r : Relation} (h : r.WellFormed) : IsConjunction (.atom r)
  | all {rs : List Relation} (h : ∀ r ∈ rs, r.WellFormed) (two_le : 2 ≤ rs.length) :
      IsConjunction (.all (rs.map .atom))

/-- The condition that always holds, a conjunction of relations, or at least two of these of
which one has to hold. -/
inductive Canonical : Condition → Prop where
  | always : Canonical .always
  | conjunction {c : Condition} (h : IsConjunction c) : Canonical c
  | any {parts : List Condition} (h : ∀ part ∈ parts, IsConjunction part)
      (two_le : 2 ≤ parts.length) : Canonical (.any parts)

/-- The alternatives that can be written are found in the formula that is made of them. -/
lemma Writable.alternatives_ofAlternatives {terms : List (List Relation)} (h : Writable terms) :
    alternatives (Formula.ofAlternatives terms) = terms :=
  Formula.alternatives_ofAlternatives fun term hterm r hr =>
    if_neg (h.wellFormed term hterm r hr).ranges_ne_nil

lemma isConjunction_ofAtoms {term : List Relation} (hne : term ≠ [])
    (h : ∀ r ∈ term, r.WellFormed) : IsConjunction (Formula.ofAtoms term) := by
  match term, hne with
  | [r], _ => exact .atom (h r (by simp))
  | r :: s :: rest, _ =>
      rw [Formula.ofAtoms, Formula.group_of_two_le (by simp)]
      exact .all h (by simp)

lemma IsConjunction.canonical_group {parts : List Condition} (hne : parts ≠ [])
    (h : ∀ part ∈ parts, IsConjunction part) : Canonical (Formula.group .any parts) := by
  match parts, hne with
  | [part], _ => exact .conjunction (h part (by simp))
  | part :: next :: rest, _ => exact .any h (by simp)

theorem Writable.canonical_ofAlternatives {terms : List (List Relation)} (h : Writable terms) :
    Canonical (Formula.ofAlternatives terms) := by
  have hparts : ∀ part ∈ terms.map Formula.ofAtoms, IsConjunction part := by
    rw [List.forall_mem_map]
    exact fun term hterm =>
      isConjunction_ofAtoms (h.term_ne_nil term hterm) (h.wellFormed term hterm)
  exact IsConjunction.canonical_group (by simpa using h.ne_nil) hparts

/-- A conjunction is the one of its atoms. -/
lemma IsConjunction.eq_ofAtoms {c : Condition} (h : IsConjunction c) :
    c = Formula.ofAtoms c.atoms ∧ c.atoms ≠ [] ∧ ∀ r ∈ c.atoms, r.WellFormed := by
  cases h with
  | atom h => exact ⟨by simp [Formula.ofAtoms, Formula.group], by simp, by simpa using h⟩
  | @all rs h htwo =>
      have hgroup : Formula.ofAtoms rs = .all (rs.map .atom) := by
        rw [Formula.ofAtoms, Formula.group_of_two_le (by simpa using htwo)]
      have hatoms : (Formula.all (rs.map .atom)).atoms = rs := by
        rw [← hgroup, Formula.atoms_ofAtoms]
      rw [hatoms, hgroup]
      exact ⟨rfl, List.ne_nil_of_length_pos (by omega), h⟩

/-- A canonical condition always holds or is the formula of alternatives that can be
written. -/
theorem Canonical.eq_ofAlternatives {c : Condition} (h : Canonical c) :
    c = .always ∨ ∃ terms, Writable terms ∧ c = Formula.ofAlternatives terms := by
  cases h with
  | always => exact .inl rfl
  | conjunction h =>
      obtain ⟨hc, hne, hwell⟩ := h.eq_ofAtoms
      exact .inr ⟨[c.atoms], ⟨by simp, by simpa using hne, by simpa using hwell⟩, hc⟩
  | @any parts h htwo =>
      have hparts : (parts.map Formula.atoms).map Formula.ofAtoms = parts := by
        rw [List.map_map]
        refine (List.map_congr_left fun part hpart => ?_).trans (List.map_id parts)
        exact (h part hpart).eq_ofAtoms.1.symm
      refine .inr ⟨parts.map Formula.atoms, ⟨?_, ?_, ?_⟩, ?_⟩
      · exact List.ne_nil_of_length_pos (by rw [List.length_map]; omega)
      · rw [List.forall_mem_map]
        exact fun part hpart => (h part hpart).eq_ofAtoms.2.1
      · rw [List.forall_mem_map]
        exact fun part hpart => (h part hpart).eq_ofAtoms.2.2
      · rw [Formula.ofAlternatives, hparts, Formula.group_of_two_le htwo]

/-- The relations of a canonical condition can be written. -/
lemma Canonical.wellFormed {c : Condition} (h : Canonical c) : ∀ r ∈ c.atoms, r.WellFormed := by
  cases h with
  | always => simp [Formula.always]
  | conjunction h => exact h.eq_ofAtoms.2.2
  | any h _ =>
      rw [Formula.atoms_any]
      intro r hr
      obtain ⟨part, hpart, hmem⟩ := List.mem_flatMap.1 hr
      exact (h part hpart).eq_ofAtoms.2.2 r hmem

lemma text_always : text .always = "" := by
  rw [text, alternatives, Formula.always, Formula.alternatives_all, List.map_nil,
    Formula.products_nil]
  rfl

lemma Writable.text_ofAlternatives {terms : List (List Relation)} (h : Writable terms) :
    text (Formula.ofAlternatives terms) = textOfAlternatives terms := by
  rw [text, h.alternatives_ofAlternatives]

/-! ### Canonical conditions and texts -/

lemma wellFormed_of_spells {s : List Char} {r : Relation} (h : Relation.Spells s r) :
    r.WellFormed := by
  obtain ⟨-, -, hcomparison, -⟩ := h
  cases hcomparison with
  | is _ _ _ => exact ⟨List.cons_ne_nil _ _, fun _ => ⟨_, rfl⟩⟩
  | equal _ hlist => exact ⟨hlist.ne_nil, nofun⟩
  | notEqual _ hlist => exact ⟨hlist.ne_nil, nofun⟩
  | membership _ hword _ hlist => exact ⟨hlist.ne_nil, by cases hword <;> nofun⟩

lemma isConjunction_of_spellsConjunction {s : List Char} {c : Condition}
    (h : SpellsConjunction s c) : IsConjunction c := by
  cases h with
  | single hr => exact .atom (wellFormed_of_spells hr)
  | group hrs htwo =>
      refine .all (fun r hr => ?_) htwo
      obtain ⟨t, ht⟩ := hrs.exists_item r hr
      exact wellFormed_of_spells ht

/-- What is spelled is canonical. -/
theorem canonical_of_spells {s : List Char} {c : Condition} (h : SpellsOptional s c) :
    Canonical c := by
  cases h with
  | absent => exact .always
  | present h =>
      cases h with
      | single hc => exact .conjunction (isConjunction_of_spellsConjunction hc)
      | group hparts htwo =>
          refine .any (fun part hpart => ?_) htwo
          obtain ⟨t, ht⟩ := hparts.exists_item part hpart
          exact isConjunction_of_spellsConjunction ht

lemma canonical_of_spellsRule {s : List Char} {r : Rule} (h : Rule.Spells s r) :
    r.condition.Canonical := by
  obtain ⟨-, hcondition, -, -, -, -, -⟩ := h
  exact canonical_of_spells hcondition

/-- The text of a canonical condition spells it. -/
theorem Canonical.spells_text {c : Condition} (h : Canonical c) :
    SpellsOptional (text c).toList c := by
  rcases h.eq_ofAlternatives with rfl | ⟨terms, hterms, rfl⟩
  · rw [text_always]
    exact .absent
  · rw [hterms.text_ofAlternatives]
    exact .present hterms.spells_textOfAlternatives

end Condition

/-! ### Rules -/

/-- **Rules are read back**: the text of a canonical condition, followed by its integer samples
and its decimal samples behind their annotations, is read as just this condition with just
these samples. -/
theorem Rule.ofText_text {c : Condition} {integers decimals : List Sample} (hc : c.Canonical)
    (hi : ∀ s ∈ integers, s.kind = .integer) (hd : ∀ s ∈ decimals, s.kind = .decimal) :
    Rule.ofText (Condition.text c ++ SampleKind.integer.annotation integers
      ++ SampleKind.decimal.annotation decimals) = .ok ⟨c, integers ++ decimals⟩ := by
  obtain ⟨b, t, hb, hintegers, ht⟩ := Sample.exists_annotation hi
  obtain ⟨b', u, hb', hdecimals, hu⟩ := Sample.exists_annotation hd
  rw [Rule.ofText_eq_ok_iff, String.toList_append, String.toList_append, ht, hu]
  have hspells := Rule.Spells.intro Text.Blanks.nil hc.spells_text hb hintegers hb' hdecimals
    Text.Blanks.nil
  simpa only [List.nil_append, List.append_nil, List.append_assoc] using hspells

/-- A rule with a modulus, a list of ranges, a negation and samples of both kinds. -/
theorem Rule.ofText_text_two_conjunctions :
    Rule.ofText
        "n mod 10 is 1 and v not in 2..4,7 or i within 5 @integer 1~21, 5 @decimal 1.50" =
      .ok ⟨.any
          [.all [.atom (Expr.is ⟨.n, some ⟨10, by decide⟩⟩ 1),
            .atom (Expr.notIn ⟨.v, none⟩ [⟨2, 4, by decide⟩, .single 7])],
          .atom (Expr.within ⟨.i, none⟩ [.single 5])],
        [⟨.integer, .ofNat 1 (by decide), some (.ofNat 21 (by decide))⟩,
          ⟨.integer, .ofNat 5 (by decide), none⟩]
        ++ [⟨.decimal, ⟨150, 2, by decide, by decide⟩, none⟩]⟩ := by
  refine (congrArg Rule.ofText ?_).trans
    (Rule.ofText_text (.any ?_ (by decide)) (by decide) (by decide))
  · decide
  · rw [List.forall_mem_cons, List.forall_mem_singleton]
    refine ⟨@Condition.IsConjunction.all [_, _] ?_ (by decide), .atom ⟨by decide, nofun⟩⟩
    rw [List.forall_mem_cons, List.forall_mem_singleton]
    exact ⟨⟨by decide, fun _ => ⟨1, rfl⟩⟩, ⟨by decide, nofun⟩⟩

end PluralRules
