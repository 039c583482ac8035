import Mathlib.Tactic
import PluralRules.Formula

/-!
The truth of formulas, their atoms, and their disjunctive form.

* `holds_lower`: a change of atoms, with groups of one part taken away, keeps the truth value.
* `holds_congr`: a formula looks at nothing but its atoms.
* `mem_atoms_and`, `atoms_or`: what is combined has no new atoms.
* `holds_iff_alternatives`: a formula holds if and only if all members of one of its
  alternatives do.
* `exists_atom_of_mem_alternatives`: what stands in an alternative comes from an atom.
* `ofAlternatives`: the formula with given alternatives. It has their truth value
  (`holds_ofAlternatives`), and they are found in it again (`alternatives_ofAlternatives`).
-/

namespace PluralRules.Formula

universe u v

variable {α : Type u} {β : Type v}

/-! ### Groups of one part -/

/-- A group is its only part, or of the given kind. -/
lemma group_cases (kind : List (Formula α) → Formula α) (parts : List (Formula α)) :
    (∃ x, parts = [x] ∧ group kind parts = x) ∨
      (parts.length ≠ 1 ∧ group kind parts = kind parts) := by
  match parts with
  | [] => exact .inr ⟨by simp, rfl⟩
  | [x] => exact .inl ⟨x, rfl, rfl⟩
  | x :: y :: rest => exact .inr ⟨by simp, rfl⟩

lemma group_of_length_ne_one {parts : List (Formula α)} (h : parts.length ≠ 1)
    (kind : List (Formula α) → Formula α) : group kind parts = kind parts := by
  rcases group_cases kind parts with ⟨x, rfl, -⟩ | ⟨-, hgroup⟩
  · exact absurd List.length_singleton h
  · exact hgroup

lemma group_of_two_le {parts : List (Formula α)} (h : 2 ≤ parts.length)
    (kind : List (Formula α) → Formula α) : group kind parts = kind parts :=
  group_of_length_ne_one (Nat.ne_of_gt h) kind

lemma holds_group_any (p : α → Bool) (parts : List (Formula α)) :
    (group .any parts).holds p = parts.any (·.holds p) := by
  rcases group_cases .any parts with ⟨x, rfl, h⟩ | ⟨-, h⟩ <;> rw [h]
  · simp
  · rw [holds_any]

lemma holds_group_all (p : α → Bool) (parts : List (Formula α)) :
    (group .all parts).holds p = parts.all (·.holds p) := by
  rcases group_cases .all parts with ⟨x, rfl, h⟩ | ⟨-, h⟩ <;> rw [h]
  · simp
  · rw [holds_all]

/-- Lowering changes the atoms and keeps the truth value. -/
theorem holds_lower (f : α → β) (p : β → Bool) (x : Formula α) :
    (x.lower f).holds p = x.holds fun a => p (f a) := by
  induction x with
  | any parts ih =>
      rw [Bool.eq_iff_iff]
      simp only [lower_any, holds_group_any, holds_any, List.any_map, List.any_eq_true,
        Function.comp_apply]
      exact exists_congr fun part => and_congr_right fun h => by rw [ih part h]
  | all parts ih =>
      rw [Bool.eq_iff_iff]
      simp only [lower_all, holds_group_all, holds_all, List.all_map, List.all_eq_true,
        Function.comp_apply]
      exact forall₂_congr fun part h => by rw [ih part h]
  | atom a => rw [lower_atom, holds_atom, holds_atom]

/-! ### Atoms -/

/-- A formula looks at nothing but its atoms. -/
lemma holds_congr {p q : α → Bool} {x : Formula α} (h : ∀ a ∈ x.atoms, p a = q a) :
    x.holds p = x.holds q := by
  induction x with
  | any parts ih =>
      rw [holds_any, holds_any, Bool.eq_iff_iff, List.any_eq_true, List.any_eq_true]
      refine exists_congr fun part => and_congr_right fun hpart => ?_
      rw [ih part hpart fun a ha => h a (by simpa using ⟨part, hpart, ha⟩)]
  | all parts ih =>
      rw [holds_all, holds_all, Bool.eq_iff_iff, List.all_eq_true, List.all_eq_true]
      refine forall₂_congr fun part hpart => ?_
      rw [ih part hpart fun a ha => h a (by simpa using ⟨part, hpart, ha⟩)]
  | atom a => rw [holds_atom, holds_atom, h a (by simp)]

lemma atoms_group_any (parts : List (Formula α)) :
    (group .any parts).atoms = parts.flatMap atoms := by
  rcases group_cases .any parts with ⟨x, rfl, h⟩ | ⟨-, h⟩ <;> rw [h]
  · simp
  · rw [atoms_any]

lemma atoms_group_all (parts : List (Formula α)) :
    (group .all parts).atoms = parts.flatMap atoms := by
  rcases group_cases .all parts with ⟨x, rfl, h⟩ | ⟨-, h⟩ <;> rw [h]
  · simp
  · rw [atoms_all]

lemma flatMap_atoms_conjuncts (x : Formula α) : x.conjuncts.flatMap atoms = x.atoms := by
  cases x <;> simp [conjuncts]

lemma flatMap_atoms_disjuncts (x : Formula α) : x.disjuncts.flatMap atoms = x.atoms := by
  cases x <;> simp [disjuncts]

/-- What a change of choices puts into a formula is made of a formula with atoms of the old one. -/
lemma exists_choice_of_mem_atoms {f : Formula α → Formula α} {x : Formula α} {a : α}
    (h : a ∈ (x.mapChoices f).atoms) : ∃ y, y.atoms ⊆ x.atoms ∧ a ∈ (f y).atoms := by
  induction x with
  | any parts ih =>
      rw [mapChoices_any, atoms_any, List.flatMap_map] at h
      obtain ⟨part, hpart, ha⟩ := List.mem_flatMap.1 h
      obtain ⟨y, hy, hay⟩ := ih part hpart ha
      refine ⟨y, fun b hb => ?_, hay⟩
      rw [atoms_any]
      exact List.mem_flatMap.2 ⟨part, hpart, hy hb⟩
  | all parts ih => exact ⟨.all parts, List.Subset.refl _, h⟩
  | atom b => exact ⟨.atom b, List.Subset.refl _, h⟩

/-- The atoms of a conjunction are atoms of its parts. -/
theorem mem_atoms_and {x y : Formula α} {a : α} (h : a ∈ (x.and y).atoms) :
    a ∈ x.atoms ∨ a ∈ y.atoms := by
  obtain ⟨u, hu, hau⟩ := exists_choice_of_mem_atoms h
  obtain ⟨v, hv, hav⟩ := exists_choice_of_mem_atoms hau
  rw [atoms_group_all, List.flatMap_append, flatMap_atoms_conjuncts, flatMap_atoms_conjuncts,
    List.mem_append] at hav
  exact hav.imp (fun ha => hu ha) fun ha => hv ha

/-- The atoms of a disjunction are those of its parts. -/
theorem atoms_or (x y : Formula α) : (x.or y).atoms = x.atoms ++ y.atoms := by
  rw [or, atoms_group_any, List.flatMap_append, flatMap_atoms_disjuncts, flatMap_atoms_disjuncts]

/-! ### The disjunctive form -/

section Products

variable {choices : List (List (List β))} {q : β → Prop}

/-- One of the products holds in all its members if and only if one choice of each list does. -/
lemma exists_mem_products_iff :
    (∃ term ∈ products choices, ∀ b ∈ term, q b) ↔
      ∀ list ∈ choices, ∃ term ∈ list, ∀ b ∈ term, q b := by
  induction choices with
  | nil => simp
  | cons list choices ih =>
      rw [products_cons, List.forall_mem_cons, ← ih]
      constructor
      · rintro ⟨term, hterm, hall⟩
        obtain ⟨first, hfirst, hrest⟩ := List.mem_flatMap.1 hterm
        obtain ⟨rest, hmem, rfl⟩ := List.mem_map.1 hrest
        rw [List.forall_mem_append] at hall
        exact ⟨⟨first, hfirst, hall.1⟩, rest, hmem, hall.2⟩
      · rintro ⟨⟨first, hfirst, hall⟩, rest, hmem, hall'⟩
        refine ⟨first ++ rest, List.mem_flatMap.2 ⟨first, hfirst, ?_⟩, ?_⟩
        · exact List.mem_map.2 ⟨rest, hmem, rfl⟩
        · exact List.forall_mem_append.2 ⟨hall, hall'⟩

/-- What stands in a product stands in a choice. -/
lemma exists_choice_of_mem_products {term : List β} {b : β} (h : term ∈ products choices)
    (hb : b ∈ term) : ∃ list ∈ choices, ∃ choice ∈ list, b ∈ choice := by
  induction choices generalizing term with
  | nil =>
      rw [products_nil, List.mem_singleton] at h
      exact absurd hb (by simp [h])
  | cons list choices ih =>
      rw [products_cons] at h
      obtain ⟨first, hfirst, hrest⟩ := List.mem_flatMap.1 h
      obtain ⟨rest, hmem, rfl⟩ := List.mem_map.1 hrest
      rcases List.mem_append.1 hb with hb | hb
      · exact ⟨list, by simp, first, hfirst, hb⟩
      · obtain ⟨l, hl, choice, hchoice, hbc⟩ := ih hmem hb
        exact ⟨l, by simp [hl], choice, hchoice, hbc⟩

/-- Without a choice there is one product. -/
lemma products_map_singleton (term : List β) : products (term.map fun b => [[b]]) = [term] := by
  induction term with
  | nil => simp
  | cons b term ih => simp [products_cons, ih]

lemma products_singleton (list : List (List β)) : products [list] = list := by
  simp [products_cons]

end Products

section Alternatives

variable {alt : α → List (List β)}

/-- A formula holds if and only if all members of one of its alternatives do, if this is so of
each atom. -/
theorem holds_iff_alternatives {p : α → Bool} {q : β → Prop}
    (hatom : ∀ a, p a = true ↔ ∃ term ∈ alt a, ∀ b ∈ term, q b) (x : Formula α) :
    x.holds p = true ↔ ∃ term ∈ x.alternatives alt, ∀ b ∈ term, q b := by
  induction x with
  | any parts ih =>
      rw [holds_any, List.any_eq_true, alternatives_any]
      constructor
      · rintro ⟨part, hpart, hholds⟩
        obtain ⟨term, hterm, hall⟩ := (ih part hpart).1 hholds
        exact ⟨term, List.mem_flatMap.2 ⟨part, hpart, hterm⟩, hall⟩
      · rintro ⟨term, hterm, hall⟩
        obtain ⟨part, hpart, hmem⟩ := List.mem_flatMap.1 hterm
        exact ⟨part, hpart, (ih part hpart).2 ⟨term, hmem, hall⟩⟩
  | all parts ih =>
      rw [holds_all, List.all_eq_true, alternatives_all, exists_mem_products_iff,
        List.forall_mem_map]
      exact forall₂_congr ih
  | atom a => rw [holds_atom, alternatives_atom, hatom]

/-- What stands in an alternative of a formula comes from one of its atoms. -/
theorem exists_atom_of_mem_alternatives {x : Formula α} {term : List β} {b : β}
    (h : term ∈ x.alternatives alt) (hb : b ∈ term) :
    ∃ a ∈ x.atoms, ∃ choice ∈ alt a, b ∈ choice := by
  induction x generalizing term with
  | any parts ih =>
      rw [alternatives_any] at h
      obtain ⟨part, hpart, hterm⟩ := List.mem_flatMap.1 h
      obtain ⟨a, ha, hchoice⟩ := ih part hpart hterm hb
      exact ⟨a, by rw [atoms_any]; exact List.mem_flatMap.2 ⟨part, hpart, ha⟩, hchoice⟩
  | all parts ih =>
      rw [alternatives_all] at h
      obtain ⟨list, hlist, choice, hchoice, hbc⟩ := exists_choice_of_mem_products h hb
      obtain ⟨part, hpart, rfl⟩ := List.mem_map.1 hlist
      obtain ⟨a, ha, hatom⟩ := ih part hpart hchoice hbc
      exact ⟨a, by rw [atoms_all]; exact List.mem_flatMap.2 ⟨part, hpart, ha⟩, hatom⟩
  | atom a =>
      rw [alternatives_atom] at h
      exact ⟨a, by simp, term, h, hb⟩

lemma alternatives_group_any (parts : List (Formula α)) :
    (group .any parts).alternatives alt = (Formula.any parts).alternatives alt := by
  rcases group_cases .any parts with ⟨x, rfl, h⟩ | ⟨-, h⟩ <;> rw [h]
  simp [alternatives_any]

lemma alternatives_group_all (parts : List (Formula α)) :
    (group .all parts).alternatives alt = (Formula.all parts).alternatives alt := by
  rcases group_cases .all parts with ⟨x, rfl, h⟩ | ⟨-, h⟩ <;> rw [h]
  simp [alternatives_all, products_singleton]

end Alternatives

/-! ### The formula of some alternatives -/

/-- The conjunction of some atoms, without a group of one part. -/
def ofAtoms (term : List α) : Formula α :=
  group .all (term.map .atom)

/-- The disjunction of some conjunctions of atoms, without groups of one part. -/
def ofAlternatives (terms : List (List α)) : Formula α :=
  group .any (terms.map ofAtoms)

lemma atoms_ofAtoms (term : List α) : (ofAtoms term).atoms = term := by
  rw [ofAtoms, atoms_group_all, List.flatMap_map]
  simp only [atoms_atom, List.flatMap_singleton']

lemma holds_ofAtoms (p : α → Bool) (term : List α) : (ofAtoms term).holds p = term.all p := by
  rw [ofAtoms, holds_group_all, List.all_map]
  exact List.all_congr rfl fun a => holds_atom p a

lemma holds_ofAlternatives (p : α → Bool) (terms : List (List α)) :
    (ofAlternatives terms).holds p = terms.any (·.all p) := by
  rw [ofAlternatives, holds_group_any, List.any_map]
  exact List.any_congr rfl fun term => holds_ofAtoms p term

/-- The alternatives of a formula are found in it again, if no atom offers a choice. -/
theorem alternatives_ofAlternatives {alt : α → List (List α)} {terms : List (List α)}
    (h : ∀ term ∈ terms, ∀ a ∈ term, alt a = [[a]]) :
    (ofAlternatives terms).alternatives alt = terms := by
  have hterm : ∀ term ∈ terms, (ofAtoms term).alternatives alt = [term] := by
    intro term hterm
    rw [ofAtoms, alternatives_group_all, alternatives_all, List.map_map,
      ← products_map_singleton term]
    congr 1
    refine List.map_congr_left fun a ha => ?_
    rw [Function.comp_apply, alternatives_atom, h term hterm a ha]
  rw [ofAlternatives, alternatives_group_any, alternatives_any, List.flatMap_map]
  calc terms.flatMap (fun term => (ofAtoms term).alternatives alt)
      = terms.flatMap fun term => [term] := List.flatMap_congr hterm
    _ = terms := List.flatMap_singleton' terms

end PluralRules.Formula
