import PluralRules.Proofs.NormalForm

/-!
Conjunction, disjunction and negation of conditions.

A conjunction is built by passing through the disjunctions of both formulas, so what it means
follows from what `mapChoices` does to a truth value.

* `Formula.holds_mapChoices`: if a change of what is not a disjunction adds one demand, the
  change of all choices adds it too.
* `Formula.holds_and`, `Formula.holds_or`: both connectives on formulas of any shape.
* `Predicate.accepts_connectives`: the same of conditions, with the negation of a relation.
-/

namespace PluralRules

namespace Formula

universe u

variable {α : Type u} (p : α → Bool)

lemma all_holds_conjuncts (x : Formula α) : x.conjuncts.all (·.holds p) = x.holds p := by
  cases x <;> simp [conjuncts]

lemma any_holds_disjuncts (x : Formula α) : x.disjuncts.any (·.holds p) = x.holds p := by
  cases x <;> simp [disjuncts]

/-- A demand that a change adds to whatever is not a disjunction is added to all choices. -/
lemma holds_mapChoices {f : Formula α → Formula α} {demand : Bool}
    (hf : ∀ a, (f a).holds p = (a.holds p && demand)) (x : Formula α) :
    (x.mapChoices f).holds p = (x.holds p && demand) := by
  induction x with
  | any parts ih =>
      rw [mapChoices_any, holds_any, holds_any, List.any_map, Bool.eq_iff_iff]
      simp only [Bool.and_eq_true, List.any_eq_true, Function.comp_apply]
      constructor
      · rintro ⟨part, hpart, hholds⟩
        rw [ih part hpart, Bool.and_eq_true] at hholds
        exact ⟨⟨part, hpart, hholds.1⟩, hholds.2⟩
      · rintro ⟨⟨part, hpart, hholds⟩, hdemand⟩
        refine ⟨part, hpart, ?_⟩
        rw [ih part hpart, hholds, hdemand, Bool.and_self]
  | all parts => exact hf (.all parts)
  | atom a => exact hf (.atom a)

/-- The conjunction of two formulas holds if both do, wherever disjunctions stand in them. -/
theorem holds_and (x y : Formula α) : (x.and y).holds p = (x.holds p && y.holds p) := by
  rw [and]
  refine holds_mapChoices p (fun a => ?_) x
  have hjoin : ∀ b : Formula α,
      (group .all (a.conjuncts ++ b.conjuncts)).holds p = (b.holds p && a.holds p) := by
    intro b
    rw [holds_group_all, List.all_append, all_holds_conjuncts, all_holds_conjuncts, Bool.and_comm]
  rw [holds_mapChoices p hjoin, Bool.and_comm]

/-- The disjunction of two formulas holds if one does. -/
theorem holds_or (x y : Formula α) : (x.or y).holds p = (x.holds p || y.holds p) := by
  rw [or, holds_group_any, List.any_append, any_holds_disjuncts, any_holds_disjuncts]

end Formula

/-- **Conditions are put together as truth values are**: on all operands, the predicate of a
conjunction accepts what both predicates accept, that of a disjunction what one of them accepts,
and that of the opposite of a relation what that of the relation does not. -/
theorem Predicate.accepts_connectives (a b : Condition) (r : Relation) (o : Operands) :
    (ofCondition (a.and b)).accepts o = ((ofCondition a).accepts o && (ofCondition b).accepts o) ∧
    (ofCondition (a.or b)).accepts o = ((ofCondition a).accepts o || (ofCondition b).accepts o) ∧
    (ofCondition (.atom r.not)).accepts o = !(ofCondition (.atom r)).accepts o := by
  simp only [ofCondition_accepts]
  refine ⟨Formula.holds_and _ a b, Formula.holds_or _ a b, ?_⟩
  rw [Formula.holds_atom, Formula.holds_atom, holds_not]

end PluralRules
