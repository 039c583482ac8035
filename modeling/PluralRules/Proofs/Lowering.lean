import PluralRules.Proofs.Distribution
import PluralRules.Proofs.Unchecked

/-!
What lowering takes from a condition, and what it keeps.

A condition is lowered from below: each relation becomes a test, and a group whose parts are lowered
already stands aside for its part if it has just one. So it is enough to see what becomes of one
group at a time. Any other group stays, an empty one too.

* `Formula.parts`, `Formula.Compact`: the parts of a group; no group in a formula has just one.
* `Formula.compact_lower`: what is lowered is compact.
* `Formula.lower_eq_map_iff`: nothing but the atoms is changed in just the compact formulas.
* `Formula.atoms_lower`, `Formula.length_atoms`: atoms stay in their order and number.
* `Test.Repeats`: a test asks what a relation does. It then is the test of this relation
  (`Test.repeats_iff`).
* `Predicate.ofCondition_tests_faithful`: the tests of a condition.
-/

namespace PluralRules

namespace Formula

section Groups

universe u v

variable {α : Type u} {β : Type v}

/-! ### Formulas without a group of one part -/

/-- The parts of a group. An atom has none. -/
def parts : Formula α → List (Formula α)
  | .any parts => parts
  | .all parts => parts
  | .atom _ => []

/-- No group that occurs in the formula, at whatever depth, has just one part. -/
def Compact (x : Formula α) : Prop :=
  ∀ y, Occurs y x → y.parts.length ≠ 1

lemma occurs_iff {x y : Formula α} : Occurs x y ↔ x = y ∨ ∃ part ∈ y.parts, Occurs x part := by
  constructor
  · rintro (_ | ⟨hpart, h⟩ | ⟨hpart, h⟩)
    · exact .inl rfl
    · exact .inr ⟨_, hpart, h⟩
    · exact .inr ⟨_, hpart, h⟩
  · rintro (rfl | ⟨part, hpart, h⟩)
    · exact .refl
    · cases y with
      | any parts => exact .any hpart h
      | all parts => exact .all hpart h
      | atom a => exact absurd hpart List.not_mem_nil

/-- A formula is compact if it is no group of one part and all its parts are compact. -/
lemma compact_iff {x : Formula α} :
    x.Compact ↔ x.parts.length ≠ 1 ∧ ∀ part ∈ x.parts, part.Compact := by
  constructor
  · intro h
    exact ⟨h x .refl, fun part hpart y hy => h y (occurs_iff.2 (.inr ⟨part, hpart, hy⟩))⟩
  · rintro ⟨hlength, hparts⟩ y hy
    rcases occurs_iff.1 hy with rfl | ⟨part, hpart, hy⟩
    · exact hlength
    · exact hparts part hpart y hy

/-- Compact parts make a compact group. -/
lemma Compact.group {kind : List (Formula α) → Formula α} {parts : List (Formula α)}
    (hkind : (kind parts).parts = parts) (h : ∀ part ∈ parts, part.Compact) :
    (group kind parts).Compact := by
  rcases group_cases kind parts with ⟨x, rfl, hgroup⟩ | ⟨hlength, hgroup⟩ <;> rw [hgroup]
  · exact h x (List.mem_singleton_self x)
  · rw [compact_iff, hkind]
    exact ⟨hlength, h⟩

/-- Lowering leaves no group of one part. -/
theorem compact_lower (f : α → β) (x : Formula α) : (x.lower f).Compact := by
  induction x with
  | any parts ih =>
      rw [lower_any]
      exact .group rfl (List.forall_mem_map.2 ih)
  | all parts ih =>
      rw [lower_all]
      exact .group rfl (List.forall_mem_map.2 ih)
  | atom a =>
      rw [lower_atom, compact_iff]
      exact ⟨Nat.zero_ne_one, fun part hpart => absurd hpart List.not_mem_nil⟩

/-! ### Atoms -/

/-- Lowering changes each atom where it stands. -/
theorem atoms_lower (f : α → β) (x : Formula α) : (x.lower f).atoms = x.atoms.map f := by
  induction x with
  | any parts ih =>
      rw [lower_any, atoms_group_any, atoms_any, List.flatMap_map, List.map_flatMap]
      exact List.flatMap_congr ih
  | all parts ih =>
      rw [lower_all, atoms_group_all, atoms_all, List.flatMap_map, List.map_flatMap]
      exact List.flatMap_congr ih
  | atom a => rw [lower_atom, atoms_atom, atoms_atom, List.map_singleton]

/-- Atoms are listed once for each time they are counted. -/
theorem length_atoms (x : Formula α) : x.atoms.length = x.count := by
  induction x with
  | any parts ih =>
      rw [atoms_any, count_any, List.length_flatMap, List.sum_eq_foldr]
      exact congrArg (List.foldr (· + ·) 0) (List.map_congr_left ih)
  | all parts ih =>
      rw [atoms_all, count_all, List.length_flatMap, List.sum_eq_foldr]
      exact congrArg (List.foldr (· + ·) 0) (List.map_congr_left ih)
  | atom a => rw [atoms_atom, count_atom, List.length_singleton]

end Groups

section Map

variable {α β : Type} {f : α → β}

/-! ### Groups that stay -/

lemma parts_map (x : Formula α) : (x.map f).parts = x.parts.map (map f) := by
  cases x with
  | any parts =>
      rw [map_any]
      rfl
  | all parts =>
      rw [map_all]
      rfl
  | atom a =>
      rw [map_atom]
      rfl

/-- Whether a formula is compact is a matter of its groups, not of its atoms. -/
lemma compact_map_iff {x : Formula α} : (x.map f).Compact ↔ x.Compact := by
  -- What holds of the parts holds of the formula, of whatever kind it is.
  have hstep : ∀ x : Formula α, (∀ part ∈ x.parts, (part.map f).Compact ↔ part.Compact) →
      ((x.map f).Compact ↔ x.Compact) := by
    intro x hparts
    rw [compact_iff, compact_iff, parts_map, List.length_map, List.forall_mem_map]
    exact and_congr_right fun _ => forall₂_congr hparts
  induction x with
  | any parts ih => exact hstep _ ih
  | all parts ih => exact hstep _ ih
  | atom a => exact hstep _ fun part hpart => absurd hpart List.not_mem_nil

/-- Where no group has just one part, and only there, lowering keeps all groups. -/
theorem lower_eq_map_iff {x : Formula α} : x.lower f = x.map f ↔ x.Compact := by
  constructor
  · intro h
    rw [← compact_map_iff (f := f), ← h]
    exact compact_lower f x
  · intro h
    induction x with
    | any parts ih =>
        obtain ⟨hlength, hparts⟩ := compact_iff.1 h
        rw [lower_any, map_any, group_of_length_ne_one (by rwa [List.length_map])]
        exact congrArg Formula.any
          (List.map_congr_left fun part hpart => ih part hpart (hparts part hpart))
    | all parts ih =>
        obtain ⟨hlength, hparts⟩ := compact_iff.1 h
        rw [lower_all, map_all, group_of_length_ne_one (by rwa [List.length_map])]
        exact congrArg Formula.all
          (List.map_congr_left fun part hpart => ih part hpart (hparts part hpart))
    | atom a => rw [lower_atom, map_atom]

end Map

/-- Groups of one part disappear one within the other; the empty disjunction stays. -/
example : (Formula.all [.any [.atom 1], .any [], .all [.any [.all [.atom 2, .atom 3]]]]).lower id =
    .all [.atom 1, .any [], .all [.atom 2, .atom 3]] := by
  decide

end Formula

/-! ### Tests of a condition -/

/-- A test asks what a relation does: it compares the same operand, reduced by the same modulus,
with the same bounds in the same order, and it is negated if the relation is. It asks for an integer
unless the comparison is `within`. -/
structure Test.Repeats (test : Test) (r : Relation) : Prop where
  operand_eq : test.operand = r.expr.operand
  modulus_eq : test.modulus? = r.expr.modulus?
  negated_eq : test.negated = r.negated
  bounds_eq : test.bounds = r.ranges
  integral_iff : test.integral = true ↔ r.comparison ≠ .within

/-- The test of a relation is the only one that asks what the relation does. -/
theorem Test.repeats_iff {test : Test} {r : Relation} : test.Repeats r ↔ test = ofRelation r := by
  constructor
  · intro h
    have hintegral : test.integral = r.comparison.isIntegral :=
      Bool.eq_iff_iff.2 (h.integral_iff.trans (Comparison.isIntegral_iff _).symm)
    calc test = ⟨test.operand, test.modulus?, test.integral, test.negated, test.bounds⟩ := rfl
      _ = ofRelation r := by
          rw [h.operand_eq, h.modulus_eq, hintegral, h.negated_eq, h.bounds_eq, ofRelation]
  · rintro rfl
    exact ⟨rfl, rfl, rfl, rfl, Comparison.isIntegral_iff _⟩

/-- Tests repeat relations one by one if they are the tests of these relations. -/
lemma Test.forall₂_repeats_iff {tests : List Test} {relations : List Relation} :
    List.Forall₂ Test.Repeats tests relations ↔ tests = relations.map ofRelation := by
  rw [← List.forall₂_eq_eq_eq, List.forall₂_map_right_iff]
  exact ⟨fun h => h.imp fun _ _ => Test.repeats_iff.1, fun h => h.imp fun _ _ => Test.repeats_iff.2⟩

/-- **Lowering loses no test and leaves no trivial group**: no group in the tests of a condition has
just one part. From left to right they are the tests of the relations of the condition, as many as
these are, and each asks what its relation does. All groups are kept if and only if the condition
has none of one part. -/
theorem Predicate.ofCondition_tests_faithful (c : Condition) :
    (ofCondition c).tests.Compact ∧
    (ofCondition c).tests.atoms = c.atoms.map Test.ofRelation ∧
    (ofCondition c).tests.atoms.length = c.count ∧
    List.Forall₂ Test.Repeats (ofCondition c).tests.atoms c.atoms ∧
    ((ofCondition c).tests = c.map Test.ofRelation ↔ c.Compact) := by
  have hatoms : (ofCondition c).tests.atoms = c.atoms.map Test.ofRelation :=
    Formula.atoms_lower Test.ofRelation c
  have hcount : (ofCondition c).tests.atoms.length = c.count := by
    rw [hatoms, List.length_map, Formula.length_atoms]
  exact ⟨Formula.compact_lower Test.ofRelation c, hatoms, hcount,
    Test.forall₂_repeats_iff.2 hatoms, Formula.lower_eq_map_iff⟩

end PluralRules
