import PluralRules.Proofs.Meaning
import PluralRules.Proofs.RoundTrip

/-!
The normal form of a condition.

The text of a condition tells its alternatives. Two kinds of conditions have none that can be
written, and have texts of their own: without an alternative the condition never holds, and
with an alternative that asks for nothing it always does.

* `Condition.normalForm`: the formula of the alternatives, in which these two kinds are a
  contradiction and `always`.
* `Predicate.ofCondition_accepts_iff_alternatives`: a condition accepts what one of its
  alternatives does, relation by relation.
* `Predicate.accepts_normalForm`, `Condition.text_normalForm`: the normal form has the meaning
  and the text of the condition.
* `Rule.ofText_conditionText`: it is what the text is read as.
-/

namespace PluralRules

namespace Condition

/-- What no number meets. -/
def contradiction : List Relation :=
  [Expr.is ⟨.n, none⟩ 0, Expr.isNot ⟨.n, none⟩ 0]

/-- Some alternatives as their text tells them. -/
def normalTerms : List (List Relation) → List (List Relation)
  | [] => [contradiction]
  | terms => if terms.any List.isEmpty then [[]] else terms

/-- The condition that the text of a condition tells. -/
def normalForm (c : Condition) : Condition :=
  Formula.ofAlternatives (normalTerms (alternatives c))

/-- There are no alternatives, or one that asks for nothing, or all of them ask for
something. -/
lemma normalTerms_cases (terms : List (List Relation)) :
    (terms = [] ∧ normalTerms terms = [contradiction]) ∨
    ([] ∈ terms ∧ normalTerms terms = [[]]) ∨
    (terms ≠ [] ∧ (∀ term ∈ terms, term ≠ []) ∧ normalTerms terms = terms) := by
  cases terms with
  | nil => exact .inl ⟨rfl, rfl⟩
  | cons first rest =>
      by_cases h : (first :: rest).any List.isEmpty = true
      · obtain ⟨term, hmem, hempty⟩ := List.any_eq_true.1 h
        rw [List.isEmpty_iff] at hempty
        exact .inr (.inl ⟨hempty ▸ hmem, by rw [normalTerms, if_pos h]; exact List.cons_ne_nil _ _⟩)
      · refine .inr (.inr ⟨List.cons_ne_nil _ _, ?_, ?_⟩)
        · rintro term hmem rfl
          exact h (List.any_eq_true.2 ⟨[], hmem, rfl⟩)
        · rw [normalTerms, if_neg h]
          exact List.cons_ne_nil _ _

/-! ### Relations of alternatives -/

lemma wellFormed_of_mem_contradiction : ∀ r ∈ contradiction, r.WellFormed := by
  rw [contradiction, List.forall_mem_cons, List.forall_mem_singleton]
  exact ⟨⟨by decide, fun _ => ⟨0, rfl⟩⟩, ⟨by decide, fun _ => ⟨0, rfl⟩⟩⟩

/-- The relations of an alternative are atoms of the condition, and have ranges. -/
lemma mem_atoms_of_mem_alternatives {c : Condition} {term : List Relation} {r : Relation}
    (hterm : term ∈ alternatives c) (hr : r ∈ term) : r ∈ c.atoms ∧ r.ranges ≠ [] := by
  obtain ⟨a, ha, choice, hchoice, hmem⟩ := Formula.exists_atom_of_mem_alternatives hterm hr
  rw [Relation.alternatives] at hchoice
  split at hchoice
  · split at hchoice
    · rw [List.mem_singleton.1 hchoice] at hmem
      exact absurd hmem List.not_mem_nil
    · exact absurd hchoice List.not_mem_nil
  · rename_i hranges
    rw [List.mem_singleton.1 hchoice, List.mem_singleton] at hmem
    rw [hmem]
    exact ⟨ha, hranges⟩

lemma ranges_ne_nil_of_mem_normalTerms {c : Condition} {term : List Relation} {r : Relation}
    (hterm : term ∈ normalTerms (alternatives c)) (hr : r ∈ term) : r.ranges ≠ [] := by
  rcases normalTerms_cases (alternatives c) with ⟨-, h⟩ | ⟨-, h⟩ | ⟨-, -, h⟩ <;> rw [h] at hterm
  · rw [List.mem_singleton.1 hterm] at hr
    exact (wellFormed_of_mem_contradiction r hr).ranges_ne_nil
  · rw [List.mem_singleton.1 hterm] at hr
    exact absurd hr List.not_mem_nil
  · exact (mem_atoms_of_mem_alternatives hterm hr).2

/-! ### The text -/

lemma textOfAlternatives_of_nil_mem {terms : List (List Relation)} (h : [] ∈ terms) :
    textOfAlternatives terms = "" := by
  have hany : terms.any List.isEmpty = true := List.any_eq_true.2 ⟨[], h, rfl⟩
  rw [textOfAlternatives, if_pos hany]
  exact List.ne_nil_of_mem h

lemma textOfAlternatives_normalTerms (terms : List (List Relation)) :
    textOfAlternatives (normalTerms terms) = textOfAlternatives terms := by
  rcases normalTerms_cases terms with ⟨rfl, h⟩ | ⟨hmem, h⟩ | ⟨-, -, h⟩ <;> rw [h]
  · decide
  · rw [textOfAlternatives_of_nil_mem hmem,
      textOfAlternatives_of_nil_mem (List.mem_singleton_self _)]

/-- The normal form is written as the condition. -/
theorem text_normalForm (c : Condition) : text (normalForm c) = text c := by
  have halternatives : alternatives (normalForm c) = normalTerms (alternatives c) :=
    Formula.alternatives_ofAlternatives fun term hterm r hr =>
      if_neg (ranges_ne_nil_of_mem_normalTerms hterm hr)
  rw [text, halternatives, textOfAlternatives_normalTerms, text]

/-- If a condition can be read, so can its normal form. -/
theorem canonical_normalForm {c : Condition}
    (h : ∀ r ∈ c.atoms, r.comparison = .is → r.ranges = [] ∨ ∃ x, r.ranges = [.single x]) :
    Canonical (normalForm c) := by
  rw [normalForm]
  rcases normalTerms_cases (alternatives c) with
    ⟨-, hterms⟩ | ⟨-, hterms⟩ | ⟨hne, hterm, hterms⟩ <;> rw [hterms]
  · refine Writable.canonical_ofAlternatives ⟨by decide, by decide, ?_⟩
    rw [List.forall_mem_singleton]
    exact wellFormed_of_mem_contradiction
  · exact .always
  · refine Writable.canonical_ofAlternatives ⟨hne, hterm, fun term hmem r hr => ?_⟩
    obtain ⟨hatom, hranges⟩ := mem_atoms_of_mem_alternatives hmem hr
    exact ⟨hranges, fun his => (h r hatom his).resolve_left hranges⟩

end Condition

/-! ### The meaning -/

namespace Predicate

variable {c : Condition} {o : Operands}

/-- A relation holds if and only if all members of one of its alternatives do. -/
lemma holds_iff_alternatives (r : Relation) (o : Operands) : (Test.ofRelation r).holds o = true ↔
    ∃ term ∈ r.alternatives, ∀ b ∈ term, (Test.ofRelation b).holds o = true := by
  by_cases h : r.ranges = []
  · have hholds : (Test.ofRelation r).holds o = r.negated := by
      simp [Test.holds, Test.ofRelation, h]
    rw [hholds, Relation.alternatives, if_pos h]
    cases r.negated <;> simp
  · rw [Relation.alternatives, if_neg h]
    simp

/-- A condition accepts what all relations of one of its alternatives do. -/
theorem ofCondition_accepts_iff_alternatives : (ofCondition c).accepts o = true ↔
    ∃ term ∈ Condition.alternatives c, ∀ r ∈ term, (Test.ofRelation r).holds o = true := by
  rw [ofCondition_accepts]
  exact Formula.holds_iff_alternatives (fun r => holds_iff_alternatives r o) c

lemma holds_not (r : Relation) (o : Operands) :
    (Test.ofRelation r.not).holds o = !(Test.ofRelation r).holds o :=
  Bool.bne_not _ _

lemma not_holds_contradiction (o : Operands) :
    ¬ ∀ r ∈ Condition.contradiction, (Test.ofRelation r).holds o = true := by
  intro h
  have his := h (Expr.is ⟨.n, none⟩ 0) (by simp [Condition.contradiction])
  have hnot := h (Expr.is ⟨.n, none⟩ 0).not (by decide)
  rw [holds_not, his] at hnot
  exact Bool.false_ne_true hnot

/-- The normal form has the meaning of the condition. -/
theorem accepts_normalForm (c : Condition) (o : Operands) :
    (ofCondition c.normalForm).accepts o = (ofCondition c).accepts o := by
  rw [Bool.eq_iff_iff, ofCondition_accepts, ofCondition_accepts_iff_alternatives,
    Condition.normalForm, Formula.holds_ofAlternatives, List.any_eq_true]
  simp only [List.all_eq_true]
  rcases Condition.normalTerms_cases (Condition.alternatives c) with
    ⟨hnil, hterms⟩ | ⟨hmem, hterms⟩ | ⟨-, -, hterms⟩
  · rw [hnil] at hterms ⊢
    rw [hterms]
    simpa using not_holds_contradiction o
  · rw [hterms]
    exact iff_of_true ⟨[], by simp, by simp⟩ ⟨[], hmem, by simp⟩
  · rw [hterms]

end Predicate

/-! ### Reading it -/

namespace Rule

/-- A canonical condition is read back from its text. -/
lemma ofText_text_of_canonical {c : Condition} (h : c.Canonical) :
    Rule.ofText (Condition.text c) = .ok ⟨c, []⟩ := by
  rw [Rule.ofText_eq_ok_iff]
  simpa using Rule.Spells.intro Text.Blanks.nil h.spells_text Text.Blanks.nil .absent
    Text.Blanks.nil .absent Text.Blanks.nil

/-- **Rule text is a normal form**: if each comparison with a single value has just one, or no
range at all, then the text of a condition is read as its normal form without samples, which
accepts the same operands and has the same text. -/
theorem ofText_conditionText {c : Condition}
    (h : ∀ r ∈ c.atoms, r.comparison = .is → r.ranges = [] ∨ ∃ x, r.ranges = [.single x]) :
    Rule.ofText (Condition.text c) = .ok ⟨c.normalForm, []⟩ ∧
      (∀ o, (Predicate.ofCondition c.normalForm).accepts o = (Predicate.ofCondition c).accepts o) ∧
      Condition.text c.normalForm = Condition.text c := by
  refine ⟨?_, Predicate.accepts_normalForm c, Condition.text_normalForm c⟩
  rw [← Condition.text_normalForm c]
  exact ofText_text_of_canonical (Condition.canonical_normalForm h)

/-- A disjunction within a conjunction, with groups of one part and a relation without
ranges. -/
theorem ofText_conditionText_nested :
    Rule.ofText (Condition.text
        (.all [.any [.atom (Expr.is ⟨.n, none⟩ 1), .all [.atom (Expr.inRanges ⟨.i, none⟩ [])],
            .all [.atom (Expr.within ⟨.v, none⟩ [⟨2, 4, by decide⟩])]],
          .atom (Expr.isNot ⟨.f, none⟩ 0)])) =
      .ok ⟨.any [.all [.atom (Expr.is ⟨.n, none⟩ 1), .atom (Expr.isNot ⟨.f, none⟩ 0)],
        .all [.atom (Expr.within ⟨.v, none⟩ [⟨2, 4, by decide⟩]),
          .atom (Expr.isNot ⟨.f, none⟩ 0)]], []⟩ := by
  refine (ofText_conditionText ?_).1.trans (by decide)
  simp only [Formula.atoms_all, Formula.atoms_any, Formula.atoms_atom, List.flatMap_cons,
    List.flatMap_nil, List.cons_append, List.nil_append, List.forall_mem_cons]
  exact ⟨fun _ => .inr ⟨1, rfl⟩, fun h => absurd h (by decide), fun h => absurd h (by decide),
    fun _ => .inr ⟨0, rfl⟩, fun _ h => absurd h List.not_mem_nil⟩

end Rule

end PluralRules
