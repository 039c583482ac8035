import PluralRules.Proofs.Combining

/-!
The laws of the connectives.

Formulas are compared group by group, so that a conjunction and a disjunction obey the laws of truth
values only on formulas of a certain shape. The connectives keep to this shape, and conditions that
are built with them have it.

* `Formula.mapChoices_mapChoices`: two changes of choices in turn are one.
* `Formula.Layered`: formulas with their disjunctions outside, conjunctions of atoms inside, and no
  group of one part. Both connectives keep formulas layered (`Layered.and`, `Layered.or`).
* `Formula.Layered.and_assoc`, `Formula.Layered.or_assoc`, `Formula.Layered.and_always`,
  `Formula.Layered.always_and`: the laws of layered formulas.
* `Condition.Built`: the conditions that are built from relations, `always` and rules that are read.
  They are layered (`Condition.Built.layered`), so they obey the laws
  (`Condition.Built.connective_laws`).
-/

namespace PluralRules

namespace Formula

universe u

variable {α : Type u}

/-! ### Changes of choices -/

/-- Two changes of choices in turn are one change of choices. -/
theorem mapChoices_mapChoices (f g : Formula α → Formula α) (x : Formula α) :
    (x.mapChoices f).mapChoices g = x.mapChoices fun a => (f a).mapChoices g := by
  induction x with
  | any parts ih =>
      rw [mapChoices_any, mapChoices_any, mapChoices_any, List.map_map]
      exact congrArg Formula.any (List.map_congr_left ih)
  | all parts => rfl
  | atom a => rfl

/-! ### Layered formulas -/

/-- Disjunctions of at least two parts, perhaps within each other, and inside them conjunctions of
atoms without a group of one part. -/
inductive Layered : Formula α → Prop where
  | ofAtoms (term : List α) : Layered (ofAtoms term)
  | any {parts : List (Formula α)} (h : ∀ part ∈ parts, Layered part)
      (two_le : 2 ≤ parts.length) : Layered (.any parts)

namespace Layered

variable {x y z : Formula α}

lemma always : Layered (.always : Formula α) :=
  ofAtoms []

lemma atom (a : α) : Layered (.atom a) :=
  ofAtoms [a]

/-- What is done to the choices of a layered formula is done to conjunctions of atoms. -/
lemma mapChoices {f : Formula α → Formula α} (hx : Layered x)
    (hf : ∀ term, Layered (f (Formula.ofAtoms term))) : Layered (x.mapChoices f) := by
  induction hx with
  | ofAtoms term =>
      rw [mapChoices_ofAtoms]
      exact hf term
  | any _ two_le ih =>
      rw [mapChoices_any]
      exact .any (List.forall_mem_map.2 ih) (by rwa [List.length_map])

lemma mapChoices_congr {f g : Formula α → Formula α} (hx : Layered x)
    (hfg : ∀ term, f (Formula.ofAtoms term) = g (Formula.ofAtoms term)) :
    x.mapChoices f = x.mapChoices g := by
  induction hx with
  | ofAtoms term => rw [mapChoices_ofAtoms, mapChoices_ofAtoms, hfg]
  | any _ _ ih =>
      rw [mapChoices_any, mapChoices_any]
      exact congrArg Formula.any (List.map_congr_left ih)

/-- A change that leaves conjunctions of atoms as they are leaves a layered formula as it is. -/
lemma mapChoices_eq_self {f : Formula α → Formula α} (hx : Layered x)
    (hf : ∀ term, f (Formula.ofAtoms term) = Formula.ofAtoms term) : x.mapChoices f = x := by
  induction hx with
  | ofAtoms term => rw [mapChoices_ofAtoms, hf]
  | any _ _ ih =>
      rw [mapChoices_any]
      exact congrArg Formula.any ((List.map_congr_left ih).trans (List.map_id' _))

/-- The conjunction of a layered formula with another one, choice by choice. -/
lemma and_eq (hx : Layered x) (y : Formula α) :
    x.and y = x.mapChoices fun a => a.and y := by
  refine hx.mapChoices_congr fun term => ?_
  rw [Formula.and, mapChoices_ofAtoms]

lemma ofAtoms_and (term : List α) (hy : Layered y) :
    Layered ((Formula.ofAtoms term).and y) := by
  rw [Formula.and, mapChoices_ofAtoms]
  refine hy.mapChoices fun other => ?_
  rw [group_all_ofAtoms]
  exact ofAtoms (term ++ other)

/-- The conjunction of layered formulas is layered. -/
theorem and (hx : Layered x) (hy : Layered y) : Layered (x.and y) := by
  rw [hx.and_eq]
  exact hx.mapChoices fun term => ofAtoms_and term hy

/-- A layered formula has a disjunct, and all its disjuncts are layered. With one only, it is this
disjunct. -/
lemma disjuncts_cases (hx : Layered x) : (∀ part ∈ x.disjuncts, Layered part) ∧
    (x.disjuncts = [x] ∨ 2 ≤ x.disjuncts.length) := by
  cases hx with
  | ofAtoms term =>
      rw [disjuncts_ofAtoms]
      exact ⟨List.forall_mem_singleton.2 (ofAtoms term), .inl rfl⟩
  | any h two_le => exact ⟨h, .inr two_le⟩

/-- The parts of a disjunction of layered formulas are more than one, so they stay a group. -/
lemma or_eq (hx : Layered x) (hy : Layered y) :
    x.or y = .any (x.disjuncts ++ y.disjuncts) ∧ 2 ≤ (x.disjuncts ++ y.disjuncts).length := by
  have hlength : ∀ {u : Formula α}, Layered u → 1 ≤ u.disjuncts.length := by
    intro u hu
    rcases hu.disjuncts_cases.2 with hone | htwo
    · rw [hone, List.length_singleton]
    · exact Nat.le_of_succ_le htwo
  have htwo : 2 ≤ (x.disjuncts ++ y.disjuncts).length := by
    rw [List.length_append]
    exact Nat.add_le_add (hlength hx) (hlength hy)
  exact ⟨group_of_two_le htwo _, htwo⟩

/-- The disjunction of layered formulas is layered. -/
theorem or (hx : Layered x) (hy : Layered y) : Layered (x.or y) := by
  obtain ⟨heq, htwo⟩ := hx.or_eq hy
  rw [heq]
  exact .any (List.forall_mem_append.2 ⟨hx.disjuncts_cases.1, hy.disjuncts_cases.1⟩) htwo

/-! ### Laws -/

/-- Conjunctions can be regrouped. -/
theorem and_assoc (hx : Layered x) (hy : Layered y) (hz : Layered z) :
    (x.and y).and z = x.and (y.and z) := by
  rw [Formula.and, Formula.and, mapChoices_mapChoices]
  refine hx.mapChoices_congr fun term => ?_
  rw [mapChoices_mapChoices, Formula.and, mapChoices_mapChoices]
  refine hy.mapChoices_congr fun other => ?_
  rw [group_all_ofAtoms, mapChoices_ofAtoms, mapChoices_mapChoices]
  refine hz.mapChoices_congr fun third => ?_
  rw [group_all_ofAtoms, group_all_ofAtoms, mapChoices_ofAtoms, group_all_ofAtoms,
    List.append_assoc]

/-- Disjunctions can be regrouped. -/
theorem or_assoc (hx : Layered x) (hy : Layered y) (hz : Layered z) :
    (x.or y).or z = x.or (y.or z) := by
  rw [((hx.or hy).or_eq hz).1, (hx.or_eq (hy.or hz)).1, (hx.or_eq hy).1, (hy.or_eq hz).1]
  exact congrArg Formula.any (List.append_assoc _ _ _)

theorem and_always (hx : Layered x) : x.and .always = x := by
  refine hx.mapChoices_eq_self fun term => ?_
  exact (group_all_ofAtoms term []).trans (by rw [List.append_nil])

theorem always_and (hx : Layered x) : Formula.and .always x = x := by
  refine hx.mapChoices_eq_self fun term => ?_
  exact group_all_ofAtoms [] term

end Layered

end Formula

/-! ### Conditions that are built -/

namespace Condition

/-- The conditions that the connectives build from relations, from `always` and from the conditions
of rules that are read. -/
inductive Built : Condition → Prop where
  | relation (r : Relation) : Built (.atom r)
  | always : Built .always
  | read {s : String} {r : Rule} (h : Rule.ofText s = .ok r) : Built r.condition
  | and {a b : Condition} (ha : Built a) (hb : Built b) : Built (a.and b)
  | or {a b : Condition} (ha : Built a) (hb : Built b) : Built (a.or b)

lemma IsConjunction.layered {c : Condition} (h : IsConjunction c) : c.Layered := by
  rw [h.eq_ofAtoms.1]
  exact .ofAtoms c.atoms

lemma Canonical.layered {c : Condition} (h : Canonical c) : c.Layered := by
  cases h with
  | always => exact .always
  | conjunction h => exact h.layered
  | any h two_le => exact .any (fun part hpart => (h part hpart).layered) two_le

/-- What is built is layered: each step of building keeps it so. -/
theorem Built.layered {c : Condition} (h : Built c) : c.Layered := by
  induction h with
  | relation r => exact .atom r
  | always => exact .always
  | read h => exact (canonical_of_spellsRule (Rule.ofText_eq_ok_iff.1 h)).layered
  | and _ _ ha hb => exact ha.and hb
  | or _ _ ha hb => exact ha.or hb

/-- **The laws of the connectives**: the conditions that are built from relations, `always` and
rules that are read can be regrouped in conjunctions and in disjunctions, and a conjunction with
`always`, on either side, is the condition itself. These are equalities of conditions, not of their
meaning. -/
theorem Built.connective_laws {a b c : Condition} (ha : Built a) (hb : Built b) (hc : Built c) :
    (a.and b).and c = a.and (b.and c) ∧ (a.or b).or c = a.or (b.or c) ∧
      a.and .always = a ∧ Formula.and .always a = a :=
  ⟨ha.layered.and_assoc hb.layered hc.layered, ha.layered.or_assoc hb.layered hc.layered,
    ha.layered.and_always, ha.layered.always_and⟩

/-- Three disjunctions: one that is read, one with `always` in it, and a conjunction of both, which
has disjunctions as parts. -/
theorem Built.connective_laws_disjunctions :
    ∃ a b c : Condition,
      a = .any [.atom (Expr.is ⟨.n, none⟩ 1), .atom (Expr.is ⟨.n, none⟩ 2)] ∧
      b = .any [.always, .atom (Expr.inRanges ⟨.i, none⟩ [])] ∧
      c = .any [
        .any [.atom (Expr.is ⟨.n, none⟩ 1),
          .all [.atom (Expr.is ⟨.n, none⟩ 1), .atom (Expr.inRanges ⟨.i, none⟩ [])]],
        .any [.atom (Expr.is ⟨.n, none⟩ 2),
          .all [.atom (Expr.is ⟨.n, none⟩ 2), .atom (Expr.inRanges ⟨.i, none⟩ [])]]] ∧
      (a.and b).and c = a.and (b.and c) ∧ (a.or b).or c = a.or (b.or c) ∧
      a.and .always = a ∧ Formula.and .always a = a := by
  have hread : Rule.ofText "n is 1 or n is 2" =
      .ok ⟨.any [.atom (Expr.is ⟨.n, none⟩ 1), .atom (Expr.is ⟨.n, none⟩ 2)], []⟩ := by
    decide +kernel
  have ha : Built (.any [.atom (Expr.is ⟨.n, none⟩ 1), .atom (Expr.is ⟨.n, none⟩ 2)]) :=
    .read hread
  have hb : Built (.any [.always, .atom (Expr.inRanges ⟨.i, none⟩ [])]) :=
    .or .always (.relation (Expr.inRanges ⟨.i, none⟩ []))
  exact ⟨_, _, _, rfl, rfl, by decide, connective_laws ha hb (ha.and hb)⟩

end Condition

end PluralRules
