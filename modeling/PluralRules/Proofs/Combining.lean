import PluralRules.Proofs.NormalForm

/-!
The shape of combined conditions.

Formulas that are made of alternatives are combined on their alternatives. A disjunction puts
both lists of alternatives one behind the other. A conjunction joins each alternative of one with
each of the other (`Formula.joined`), but keeps a group for each alternative of the first: where
both formulas are disjunctions, groups of one kind are left within each other.

* `Formula.or_ofAlternatives`, `Formula.and_ofAlternatives`: what the connectives build.
* `Condition.Writable.canonical_and_iff`: a conjunction is canonical unless both parts are
  disjunctions.
* `Rule.ofText_text_and`: the text of a conjunction is read as the formula of all joined
  alternatives, without the inner groups.
* `Rule.ofText_text_connectives`: which combinations are canonical, and read back from their
  text. `Rule.not_canonical_and_disjunctions` is a conjunction that is neither.
-/

namespace PluralRules

/-! ### Connectives on alternatives -/

namespace Formula

universe u

variable {α : Type u}

/-- A formula that is a group of parts of which one has to hold. -/
def IsDisjunction (x : Formula α) : Prop :=
  ∃ parts, x = .any parts

/-- The alternatives of two lists that have to hold together, one of each. -/
def joined (terms others : List (List α)) : List (List α) :=
  terms.flatMap fun term => others.map (term ++ ·)

/-- A conjunction of atoms is no disjunction. -/
lemma not_isDisjunction_ofAtoms (term : List α) : ¬ (ofAtoms term).IsDisjunction := by
  rintro ⟨parts, h⟩
  match term with
  | [] => exact nomatch h
  | [a] => exact nomatch h
  | a :: b :: rest => exact nomatch h

lemma conjuncts_ofAtoms (term : List α) : (ofAtoms term).conjuncts = term.map .atom := by
  match term with
  | [] => rfl
  | [a] => rfl
  | a :: b :: rest => rfl

lemma disjuncts_ofAtoms (term : List α) : (ofAtoms term).disjuncts = [ofAtoms term] := by
  match term with
  | [] => rfl
  | [a] => rfl
  | a :: b :: rest => rfl

lemma mapChoices_ofAtoms (f : Formula α → Formula α) (term : List α) :
    (ofAtoms term).mapChoices f = f (ofAtoms term) := by
  match term with
  | [] => rfl
  | [a] => rfl
  | a :: b :: rest => rfl

lemma disjuncts_ofAlternatives (terms : List (List α)) :
    (ofAlternatives terms).disjuncts = terms.map ofAtoms := by
  match terms with
  | [] => rfl
  | [term] => exact disjuncts_ofAtoms term
  | term :: next :: rest => rfl

lemma isDisjunction_ofAlternatives_iff {terms : List (List α)} (h : terms ≠ []) :
    (ofAlternatives terms).IsDisjunction ↔ 2 ≤ terms.length := by
  match terms, h with
  | [term], _ => simpa [ofAlternatives, group] using not_isDisjunction_ofAtoms term
  | term :: next :: rest, _ => exact iff_of_true ⟨_, rfl⟩ (by simp)

/-- What is done to all choices is done to each alternative. -/
lemma mapChoices_ofAlternatives (f : Formula α → Formula α) (terms : List (List α)) :
    (ofAlternatives terms).mapChoices f = group .any (terms.map fun term => f (ofAtoms term)) := by
  match terms with
  | [] => rfl
  | [term] => exact mapChoices_ofAtoms f term
  | term :: next :: rest =>
      rw [ofAlternatives, group_of_two_le (by simp), mapChoices_any, List.map_map,
        group_of_two_le (by simp)]
      exact congrArg Formula.any (List.map_congr_left fun term _ => mapChoices_ofAtoms f term)

/-- A disjunction has the alternatives of both parts. -/
theorem or_ofAlternatives (terms others : List (List α)) :
    (ofAlternatives terms).or (ofAlternatives others) = ofAlternatives (terms ++ others) := by
  rw [or, disjuncts_ofAlternatives, disjuncts_ofAlternatives, ← List.map_append, ofAlternatives]

lemma group_all_ofAtoms (term other : List α) :
    group .all ((ofAtoms term).conjuncts ++ (ofAtoms other).conjuncts) =
      ofAtoms (term ++ other) := by
  rw [conjuncts_ofAtoms, conjuncts_ofAtoms, ← List.map_append, ofAtoms]

/-- A conjunction has, for each alternative of its first part, a group of what this one is
together with an alternative of its second part. -/
theorem and_ofAlternatives (terms others : List (List α)) :
    (ofAlternatives terms).and (ofAlternatives others) =
      group .any (terms.map fun term => ofAlternatives (others.map (term ++ ·))) := by
  rw [and, mapChoices_ofAlternatives]
  refine congrArg (group .any) (List.map_congr_left fun term _ => ?_)
  rw [mapChoices_ofAlternatives, ofAlternatives, List.map_map]
  refine congrArg (group .any) (List.map_congr_left fun other _ => ?_)
  exact group_all_ofAtoms term other

/-- The groups of a conjunction are merged if and only if one of its parts offers no choice. -/
theorem and_ofAlternatives_eq_iff {terms others : List (List α)} (hterms : terms ≠ [])
    (hothers : others ≠ []) :
    (ofAlternatives terms).and (ofAlternatives others) = ofAlternatives (joined terms others) ↔
      ¬ (2 ≤ terms.length ∧ 2 ≤ others.length) := by
  rw [and_ofAlternatives, joined]
  match terms, hterms, others, hothers with
  | [term], _, others, _ => simp [group]
  | term :: next :: rest, _, [other], _ =>
      have hjoined : (term :: next :: rest).flatMap (fun term => [other].map (term ++ ·)) =
          (term :: next :: rest).map (· ++ other) := List.map_eq_flatMap.symm
      refine iff_of_true ?_ (by simp)
      rw [hjoined, ofAlternatives, List.map_map]
      rfl
  | term :: next :: rest, _, other :: third :: others, _ =>
      refine iff_of_false (fun h => ?_) (by simp)
      have hparts := Formula.any.inj h
      exact not_isDisjunction_ofAtoms (term ++ other) ⟨_, (List.cons.inj hparts).1.symm⟩

end Formula

/-! ### Canonical combinations -/

lemma Expr.wellFormed_is (x : Expr) (value : UInt64) : (x.is value).WellFormed :=
  ⟨List.cons_ne_nil _ _, fun _ => ⟨value, rfl⟩⟩

namespace Condition

open Formula

lemma alternatives_always : alternatives .always = [[]] := by
  rw [alternatives, always, alternatives_all, List.map_nil, products_nil]

namespace Writable

variable {terms others : List (List Relation)}

lemma append (h : Writable terms) (h' : Writable others) : Writable (terms ++ others) where
  ne_nil := List.append_ne_nil_of_left_ne_nil h.ne_nil _
  term_ne_nil := List.forall_mem_append.2 ⟨h.term_ne_nil, h'.term_ne_nil⟩
  wellFormed := List.forall_mem_append.2 ⟨h.wellFormed, h'.wellFormed⟩

lemma mem_joined {term : List Relation} (hmem : term ∈ joined terms others) :
    ∃ first ∈ terms, ∃ second ∈ others, first ++ second = term := by
  obtain ⟨first, hfirst, hrest⟩ := List.mem_flatMap.1 hmem
  exact ⟨first, hfirst, List.mem_map.1 hrest⟩

lemma joined (h : Writable terms) (h' : Writable others) :
    Writable (Formula.joined terms others) where
  ne_nil := by
    obtain ⟨first, hfirst⟩ := List.exists_mem_of_ne_nil terms h.ne_nil
    obtain ⟨second, hsecond⟩ := List.exists_mem_of_ne_nil others h'.ne_nil
    have hmem : first ++ second ∈ Formula.joined terms others :=
      List.mem_flatMap.2 ⟨first, hfirst, List.mem_map.2 ⟨second, hsecond, rfl⟩⟩
    exact List.ne_nil_of_mem hmem
  term_ne_nil := by
    intro term hmem
    obtain ⟨first, hfirst, second, -, rfl⟩ := mem_joined hmem
    exact List.append_ne_nil_of_left_ne_nil (h.term_ne_nil first hfirst) second
  wellFormed := by
    intro term hmem
    obtain ⟨first, hfirst, second, hsecond, rfl⟩ := mem_joined hmem
    exact List.forall_mem_append.2 ⟨h.wellFormed first hfirst, h'.wellFormed second hsecond⟩

/-- What joins alternatives that can be written with one more can be written. -/
lemma map_append {term : List Relation} (hterm : ∀ r ∈ term, r.WellFormed) (h : Writable others) :
    Writable (others.map (term ++ ·)) where
  ne_nil := by simpa using h.ne_nil
  term_ne_nil := List.forall_mem_map.2 fun other hother =>
    List.append_ne_nil_of_right_ne_nil term (h.term_ne_nil other hother)
  wellFormed := List.forall_mem_map.2 fun other hother =>
    List.forall_mem_append.2 ⟨hterm, h.wellFormed other hother⟩

/-- A condition with alternatives that can be written does not always hold by its shape. -/
lemma ofAlternatives_ne_always (h : Writable terms) : ofAlternatives terms ≠ .always := by
  intro halways
  have hterms : terms = [[]] := by
    rw [← h.alternatives_ofAlternatives, halways, alternatives_always]
  exact h.term_ne_nil [] (by simp [hterms]) rfl

/-- The alternatives of a conjunction are the joined ones. -/
lemma alternatives_and (h : Writable terms) (h' : Writable others) :
    alternatives ((ofAlternatives terms).and (ofAlternatives others)) =
      Formula.joined terms others := by
  rw [and_ofAlternatives, alternatives, alternatives_group_any, alternatives_any,
    List.flatMap_map]
  exact List.flatMap_congr fun term hterm =>
    (map_append (h.wellFormed term hterm) h').alternatives_ofAlternatives

lemma and_ne_always (h : Writable terms) (h' : Writable others) :
    (ofAlternatives terms).and (ofAlternatives others) ≠ .always := by
  intro halways
  have hjoined : Formula.joined terms others = [[]] := by
    rw [← h.alternatives_and h', halways, alternatives_always]
  exact (h.joined h').term_ne_nil [] (by simp [hjoined]) rfl

/-- A conjunction is canonical if and only if it is the formula of the joined alternatives. -/
theorem canonical_and_iff (h : Writable terms) (h' : Writable others) :
    Canonical ((ofAlternatives terms).and (ofAlternatives others)) ↔
      (ofAlternatives terms).and (ofAlternatives others) =
        ofAlternatives (Formula.joined terms others) := by
  constructor
  · intro hc
    rcases hc.eq_ofAlternatives with halways | ⟨found, hfound, heq⟩
    · exact absurd halways (h.and_ne_always h')
    · have hterms : found = Formula.joined terms others := by
        rw [← hfound.alternatives_ofAlternatives, ← heq, h.alternatives_and h']
      rw [heq, hterms]
  · intro heq
    rw [heq]
    exact (h.joined h').canonical_ofAlternatives

end Writable

/-- A canonical condition that is not empty has alternatives that can be written. -/
lemma Canonical.exists_writable {c : Condition} (h : c.Canonical) (hne : c ≠ .always) :
    ∃ terms, Writable terms ∧ c = ofAlternatives terms :=
  h.eq_ofAlternatives.resolve_left hne

end Condition

/-! ### Reading combinations back -/

namespace Rule

open Formula

/-- The text of a conjunction is read as the formula of the joined alternatives. -/
theorem ofText_text_and {terms others : List (List Relation)} (h : Condition.Writable terms)
    (h' : Condition.Writable others) :
    Rule.ofText (Condition.text ((ofAlternatives terms).and (ofAlternatives others))) =
      .ok ⟨ofAlternatives (joined terms others), []⟩ := by
  rw [Condition.text, h.alternatives_and h', ← (h.joined h').text_ofAlternatives]
  exact ofText_text_of_canonical (h.joined h').canonical_ofAlternatives

/-- **Combinations of canonical conditions**: the disjunction of two canonical conditions that
are not empty is canonical and not empty, and is read back from its text. Their conjunction is
not empty; it is canonical, and read back from its text, exactly if not both of them are
disjunctions. -/
theorem ofText_text_connectives {a b : Condition} (ha : a.Canonical) (hane : a ≠ .always)
    (hb : b.Canonical) (hbne : b ≠ .always) :
    (Condition.Canonical (a.or b) ∧ a.or b ≠ .always ∧
      Rule.ofText (Condition.text (a.or b)) = .ok ⟨a.or b, []⟩) ∧
    a.and b ≠ .always ∧
    (Condition.Canonical (a.and b) ↔ ¬ (a.IsDisjunction ∧ b.IsDisjunction)) ∧
    (Rule.ofText (Condition.text (a.and b)) = .ok ⟨a.and b, []⟩ ↔
      ¬ (a.IsDisjunction ∧ b.IsDisjunction)) := by
  obtain ⟨terms, h, rfl⟩ := ha.exists_writable hane
  obtain ⟨others, h', rfl⟩ := hb.exists_writable hbne
  -- On alternatives, each of the last two statements says that no group is left within another.
  have hgroups : (ofAlternatives terms).and (ofAlternatives others) =
      ofAlternatives (joined terms others) ↔
        ¬ ((ofAlternatives terms).IsDisjunction ∧ (ofAlternatives others).IsDisjunction) := by
    rw [isDisjunction_ofAlternatives_iff h.ne_nil, isDisjunction_ofAlternatives_iff h'.ne_nil]
    exact and_ofAlternatives_eq_iff h.ne_nil h'.ne_nil
  refine ⟨?_, h.and_ne_always h', (h.canonical_and_iff h').trans hgroups, ?_⟩
  · have hor := (h.append h').canonical_ofAlternatives
    rw [or_ofAlternatives]
    exact ⟨hor, (h.append h').ofAlternatives_ne_always, ofText_text_of_canonical hor⟩
  · rw [← hgroups, ofText_text_and h h', Except.ok.injEq, Rule.mk.injEq]
    exact ⟨fun hread => hread.1.symm, fun heq => ⟨heq.symm, rfl⟩⟩

/-- The conjunction of a disjunction with a conjunction is read back. -/
theorem ofText_text_and_distributed :
    Rule.ofText "n is 1 and v is 0 and f in 2..4 or i not in 7 and v is 0 and f in 2..4" =
      .ok ⟨(Formula.any [.atom (Expr.is ⟨.n, none⟩ 1),
          .atom (Expr.notIn ⟨.i, none⟩ [.single 7])]).and
        (.all [.atom (Expr.is ⟨.v, none⟩ 0),
          .atom (Expr.inRanges ⟨.f, none⟩ [⟨2, 4, by decide⟩])]), []⟩ := by
  have ha : Condition.Canonical (.any [.atom (Expr.is ⟨.n, none⟩ 1),
      .atom (Expr.notIn ⟨.i, none⟩ [.single 7])]) := by
    refine .any ?_ (by decide)
    rw [List.forall_mem_cons, List.forall_mem_singleton]
    exact ⟨.atom (Expr.wellFormed_is _ 1), .atom ⟨by decide, nofun⟩⟩
  have hb : Condition.Canonical (.all [.atom (Expr.is ⟨.v, none⟩ 0),
      .atom (Expr.inRanges ⟨.f, none⟩ [⟨2, 4, by decide⟩])]) := by
    refine .conjunction (@Condition.IsConjunction.all [_, _] ?_ (by decide))
    rw [List.forall_mem_cons, List.forall_mem_singleton]
    exact ⟨Expr.wellFormed_is _ 0, ⟨by decide, nofun⟩⟩
  refine (congrArg Rule.ofText ?_).trans
    ((ofText_text_connectives ha (by decide) hb (by decide)).2.2.2.2 ?_)
  · decide
  · rintro ⟨-, parts, h⟩
    exact nomatch h

/-- Where both conditions are disjunctions, their conjunction has a group within a group of one
kind, and its text is read as another condition. -/
theorem not_canonical_and_disjunctions :
    ∃ a b : Condition, a = .any [.atom (Expr.is ⟨.n, none⟩ 1), .atom (Expr.is ⟨.n, none⟩ 2)] ∧
      b = .any [.atom (Expr.is ⟨.v, none⟩ 0), .atom (Expr.is ⟨.v, none⟩ 1)] ∧
      (a.Canonical ∧ a ≠ .always) ∧ (b.Canonical ∧ b ≠ .always) ∧
      ¬ Condition.Canonical (a.and b) ∧
      Rule.ofText (Condition.text (a.and b)) ≠ .ok ⟨a.and b, []⟩ := by
  have ha : Condition.Writable [[Expr.is ⟨.n, none⟩ 1], [Expr.is ⟨.n, none⟩ 2]] :=
    ⟨by decide, by decide, by simp [Expr.wellFormed_is]⟩
  have hb : Condition.Writable [[Expr.is ⟨.v, none⟩ 0], [Expr.is ⟨.v, none⟩ 1]] :=
    ⟨by decide, by decide, by simp [Expr.wellFormed_is]⟩
  have hne : (ofAlternatives [[Expr.is ⟨.n, none⟩ 1], [Expr.is ⟨.n, none⟩ 2]]).and
      (ofAlternatives [[Expr.is ⟨.v, none⟩ 0], [Expr.is ⟨.v, none⟩ 1]]) ≠
        ofAlternatives (joined [[Expr.is ⟨.n, none⟩ 1], [Expr.is ⟨.n, none⟩ 2]]
          [[Expr.is ⟨.v, none⟩ 0], [Expr.is ⟨.v, none⟩ 1]]) := by decide
  refine ⟨_, _, rfl, rfl, ⟨ha.canonical_ofAlternatives, by decide⟩,
    ⟨hb.canonical_ofAlternatives, by decide⟩, fun h => hne ((ha.canonical_and_iff hb).1 h), ?_⟩
  intro h
  have hread := (ofText_text_and ha hb).symm.trans h
  exact hne (Rule.mk.inj (Except.ok.inj hread)).1.symm

end Rule

end PluralRules
