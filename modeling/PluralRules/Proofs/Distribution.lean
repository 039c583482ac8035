import PluralRules.Proofs.Algebra

/-!
Conjunctions are distributed over disjunctions twice: when two formulas are joined, and when the
alternatives of a formula are listed.

The first goes through the disjunctions of both formulas, the second through the alternatives of all
parts of a group. They list the same alternatives in the same order as long as what stands below the
disjunctions of the first formula has no choice of its own, that is, no disjunction in a
conjunction.

* `Formula.Occurs`, `Formula.Distributed`: a formula occurs in another one; no disjunction occurs in
  a conjunction.
* `Formula.products_append`: the products of two lists of choices are joined ones.
* `Formula.alternatives_mapChoices`: what a change of choices does to alternatives.
* `Formula.alternatives_or`, `Formula.Distributed.alternatives_and`: a disjunction, and a
  conjunction with a distributed formula, have the alternatives of the plain groups.
* `Condition.text_connectives`: so they are written as these groups, and what is built is
  distributed.
-/

namespace PluralRules

namespace Formula

universe u v

variable {α : Type u} {β : Type v}

/-! ### Disjunctions in conjunctions -/

/-- A formula occurs in itself, and wherever it occurs in a part. -/
inductive Occurs (x : Formula α) : Formula α → Prop where
  | refl : Occurs x x
  | any {part : Formula α} {parts : List (Formula α)} (hpart : part ∈ parts) (h : Occurs x part) :
      Occurs x (.any parts)
  | all {part : Formula α} {parts : List (Formula α)} (hpart : part ∈ parts) (h : Occurs x part) :
      Occurs x (.all parts)

/-- No disjunction occurs in a conjunction that occurs in the formula. -/
def Distributed (x : Formula α) : Prop :=
  ∀ parts others, Occurs (.all parts) x → ¬ Occurs (.any others) (.all parts)

lemma Occurs.trans {x y z : Formula α} (hxy : Occurs x y) (hyz : Occurs y z) : Occurs x z := by
  induction hyz with
  | refl => exact hxy
  | any hpart _ ih => exact .any hpart ih
  | all hpart _ ih => exact .all hpart ih

lemma not_occurs_any_ofAtoms (term : List α) (others : List (Formula α)) :
    ¬ Occurs (.any others) (ofAtoms term) := by
  intro h
  rcases group_cases .all (term.map .atom) with ⟨x, hx, hgroup⟩ | ⟨-, hgroup⟩
  · obtain ⟨a, -, rfl⟩ := List.mem_map.1 (hx ▸ List.mem_singleton_self x)
    rw [ofAtoms, hgroup] at h
    cases h
  · rw [ofAtoms, hgroup] at h
    obtain _ | _ | ⟨hpart, hothers⟩ := h
    obtain ⟨a, -, rfl⟩ := List.mem_map.1 hpart
    cases hothers

/-- What is layered is distributed. -/
lemma Layered.distributed {x : Formula α} (h : Layered x) : Distributed x := by
  induction h with
  | ofAtoms term =>
      intro parts others hparts hothers
      exact not_occurs_any_ofAtoms term others (hothers.trans hparts)
  | any _ _ ih =>
      rintro parts others (_ | ⟨hpart, hparts⟩)
      exact ih _ hpart parts others hparts

/-! ### Joined alternatives -/

section Joined

variable {terms others : List (List α)}

/-- An alternative that is chosen from one at most can as well be chosen last. -/
lemma joined_eq_flatMap (h : terms.length ≤ 1) (others : List (List α)) :
    joined terms others = others.flatMap fun other => terms.map (· ++ other) := by
  match terms, h with
  | [], _ => simp [joined]
  | [term], _ => simp [joined, List.map_eq_flatMap]

lemma length_joined_le_one (h : terms.length ≤ 1) (h' : others.length ≤ 1) :
    (joined terms others).length ≤ 1 := by
  match terms, h with
  | [], _ => simp [joined]
  | [term], _ => simpa [joined] using h'

end Joined

section Alternatives

variable {alt : α → List (List β)}

lemma products_cons_eq_joined (list : List (List β)) (lists : List (List (List β))) :
    products (list :: lists) = joined list (products lists) :=
  products_cons list lists

/-- The products of two lists of choices are the joined products of each. -/
theorem products_append (lists others : List (List (List β))) :
    products (lists ++ others) = joined (products lists) (products others) := by
  induction lists with
  | nil => simp [joined]
  | cons list lists ih =>
      rw [List.cons_append, products_cons_eq_joined, products_cons_eq_joined, ih, joined, joined,
        joined, joined, List.flatMap_assoc]
      refine List.flatMap_congr fun term _ => ?_
      simp only [List.map_flatMap, List.flatMap_map, List.map_map, Function.comp_def,
        List.append_assoc]

/-- Lists with one choice at most have one product at most. -/
lemma length_products_le_one {lists : List (List (List β))} (h : ∀ list ∈ lists, list.length ≤ 1) :
    (products lists).length ≤ 1 := by
  induction lists with
  | nil => simp
  | cons list lists ih =>
      rw [List.forall_mem_cons] at h
      rw [products_cons_eq_joined]
      exact length_joined_le_one h.1 (ih h.2)

lemma products_conjuncts (x : Formula α) :
    products (x.conjuncts.map (alternatives alt)) = x.alternatives alt := by
  cases x with
  | any parts => exact products_singleton _
  | all parts => exact (alternatives_all alt parts).symm
  | atom a => exact products_singleton _

/-- The conjunction of two choices has their joined alternatives. -/
lemma alternatives_group_conjuncts (x y : Formula α) :
    (group .all (x.conjuncts ++ y.conjuncts)).alternatives alt =
      joined (x.alternatives alt) (y.alternatives alt) := by
  rw [alternatives_group_all, alternatives_all, List.map_append, products_append,
    products_conjuncts, products_conjuncts]

lemma alternatives_pair (x y : Formula α) :
    (Formula.all [x, y]).alternatives alt = joined (x.alternatives alt) (y.alternatives alt) := by
  rw [alternatives_all, List.map_cons, products_cons_eq_joined, List.map_singleton,
    products_singleton]

/-! ### Alternatives of connectives -/

/-- If a change does the same to each alternative of whatever is not a disjunction, the change of
all choices does this to all alternatives. -/
theorem alternatives_mapChoices {f : Formula α → Formula α} {g : List β → List (List β)}
    (x : Formula α) (hf : ∀ y, Occurs y x → ¬ y.IsDisjunction →
      (f y).alternatives alt = (y.alternatives alt).flatMap g) :
    (x.mapChoices f).alternatives alt = (x.alternatives alt).flatMap g := by
  induction x with
  | any parts ih =>
      rw [mapChoices_any, alternatives_any, alternatives_any, List.flatMap_map, List.flatMap_assoc]
      exact List.flatMap_congr fun part hpart =>
        ih part hpart fun y hy => hf y (.any hpart hy)
  | all parts => exact hf _ .refl (by simp [IsDisjunction])
  | atom a => exact hf _ .refl (by simp [IsDisjunction])

lemma alternatives_disjuncts (x : Formula α) :
    x.disjuncts.flatMap (alternatives alt) = x.alternatives alt := by
  cases x with
  | any parts => exact (alternatives_any alt parts).symm
  | all parts => exact List.flatMap_singleton ..
  | atom a => exact List.flatMap_singleton ..

/-- A disjunction has the alternatives of the plain group. -/
theorem alternatives_or (x y : Formula α) :
    (x.or y).alternatives alt = (Formula.any [x, y]).alternatives alt := by
  rw [or, alternatives_group_any, alternatives_any, List.flatMap_append, alternatives_disjuncts,
    alternatives_disjuncts, alternatives_any, List.flatMap_cons, List.flatMap_singleton]

/-- Without disjunctions there is one alternative at most, if this is so of each atom. -/
lemma length_alternatives_le_one (hatom : ∀ a, (alt a).length ≤ 1) (x : Formula α)
    (hx : ∀ others, ¬ Occurs (.any others) x) : (x.alternatives alt).length ≤ 1 := by
  induction x with
  | any parts => exact absurd .refl (hx parts)
  | all parts ih =>
      rw [alternatives_all]
      exact length_products_le_one (List.forall_mem_map.2 fun part hpart =>
        ih part hpart fun others h => hx others (.all hpart h))
  | atom a =>
      rw [alternatives_atom]
      exact hatom a

/-- A conjunction with a distributed formula has the alternatives of the plain group. -/
theorem Distributed.alternatives_and {x : Formula α} (hatom : ∀ a, (alt a).length ≤ 1)
    (hx : Distributed x) (y : Formula α) :
    (x.and y).alternatives alt = (Formula.all [x, y]).alternatives alt := by
  rw [alternatives_pair, and, joined]
  refine alternatives_mapChoices x fun u hu hchoice => ?_
  -- A choice of the first formula has one alternative at most.
  have hone : (u.alternatives alt).length ≤ 1 := by
    cases u with
    | any parts => exact absurd ⟨parts, rfl⟩ hchoice
    | all parts => exact length_alternatives_le_one hatom _ fun others h => hx parts others hu h
    | atom a => exact hatom a
  rw [← joined, joined_eq_flatMap hone]
  refine alternatives_mapChoices y fun v _ _ => ?_
  rw [alternatives_group_conjuncts, joined_eq_flatMap hone]

end Alternatives

end Formula

/-! ### Conditions -/

namespace Condition

lemma length_alternatives_le_one (r : Relation) : r.alternatives.length ≤ 1 := by
  rw [Relation.alternatives]
  split
  · split <;> simp
  · simp

/-- **Connectives are written as plain groups**: the disjunction of two conditions has the
alternatives of the group of both, in the same order, and hence its text; so does their conjunction,
if in the first one no disjunction occurs in a conjunction. This is so of every condition that is
built from relations, `always` and rules that are read. -/
theorem text_connectives (a b : Condition) :
    (alternatives (a.or b) = alternatives (.any [a, b]) ∧ text (a.or b) = text (.any [a, b])) ∧
    (a.Distributed → alternatives (a.and b) = alternatives (.all [a, b]) ∧
      text (a.and b) = text (.all [a, b])) ∧
    (Built a → a.Distributed) := by
  have hor : alternatives (a.or b) = alternatives (.any [a, b]) := Formula.alternatives_or a b
  refine ⟨⟨hor, by rw [text, hor, text]⟩, fun ha => ?_, fun ha => ha.layered.distributed⟩
  have hand : alternatives (a.and b) = alternatives (.all [a, b]) :=
    ha.alternatives_and length_alternatives_le_one b
  exact ⟨hand, by rw [text, hand, text]⟩

/-- Disjunctions on both sides, with a relation without ranges, a group of one part and an empty
group; in the second formula a disjunction occurs in a conjunction. -/
theorem text_connectives_groups :
    text (Formula.and (.any [.atom (Expr.is ⟨.n, none⟩ 1), .atom (Expr.inRanges ⟨.i, none⟩ [])])
        (.all [.any [.atom (Expr.is ⟨.v, none⟩ 0), .any [.always]],
          .atom (Expr.isNot ⟨.f, none⟩ 2)])) =
      text (.all [.any [.atom (Expr.is ⟨.n, none⟩ 1), .atom (Expr.inRanges ⟨.i, none⟩ [])],
        .all [.any [.atom (Expr.is ⟨.v, none⟩ 0), .any [.always]],
          .atom (Expr.isNot ⟨.f, none⟩ 2)]]) ∧
    text (.all [.any [.atom (Expr.is ⟨.n, none⟩ 1), .atom (Expr.inRanges ⟨.i, none⟩ [])],
        .all [.any [.atom (Expr.is ⟨.v, none⟩ 0), .any [.always]],
          .atom (Expr.isNot ⟨.f, none⟩ 2)]]) =
      "n is 1 and v is 0 and f is not 2 or n is 1 and f is not 2" := by
  have hbuilt : Built (.any [.atom (Expr.is ⟨.n, none⟩ 1), .atom (Expr.inRanges ⟨.i, none⟩ [])]) :=
    .or (.relation (Expr.is ⟨.n, none⟩ 1)) (.relation (Expr.inRanges ⟨.i, none⟩ []))
  refine ⟨((text_connectives _ _).2.1 ?_).2, by decide +kernel⟩
  exact (text_connectives _ .always).2.2 hbuilt

end Condition

end PluralRules
