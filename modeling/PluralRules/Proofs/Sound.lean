import PluralRules.Proofs.Combining
import PluralRules.Proofs.Decoding

/-!
Sound conditions, and where conditions come from.

A relation is sound if its bounds are in order, its modulus is not zero and its `is` has one value to
compare with. The first two are so by the types of ranges and moduli, wherever a relation comes from;
the third depends on who made it.

* `Relation.Sound`, `Condition.Sound`: sound relations, and conditions that have no others.
* `Condition.Made`: the conditions that are read from texts, built relation by relation, and
  combined.
* `Condition.Made.sound`, `Condition.sound_iff_of_ofJson`: what is made is sound, and what is decoded
  is sound exactly if each relation value with an `is` lists one value.
* `Condition.sound_from_outside`: both together. `Condition.not_sound_of_decoded_range` is a decoded
  condition that is not sound.
-/

namespace PluralRules

/-! ### Sound relations -/

/-- The bounds of a relation are in order, its modulus is positive, and `is` has one value. -/
structure Relation.Sound (r : Relation) : Prop where
  low_le_high : ∀ range ∈ r.ranges, range.low ≤ range.high
  modulus_pos : ∀ m ∈ r.expr.modulus?, 1 ≤ m.val
  is_single : r.comparison = .is → ∃ range, r.ranges = [range] ∧ range.low = range.high

/-- All relations of a condition are sound. -/
def Condition.Sound (c : Condition) : Prop :=
  ∀ r ∈ c.atoms, r.Sound

lemma Modulus.one_le_val (m : Modulus) : 1 ≤ m.val := by
  have hne : m.val.toNat ≠ 0 := fun hzero => m.ne_zero (UInt64.toNat_inj.1 hzero)
  rw [UInt64.le_iff_toNat_le]
  exact Nat.one_le_iff_ne_zero.2 hne

namespace Relation

variable {r : Relation}

/-- Whatever made a relation, it is sound if its `is` is. -/
lemma sound_iff : r.Sound ↔
    (r.comparison = .is → ∃ range, r.ranges = [range] ∧ range.low = range.high) :=
  ⟨fun h => h.is_single, fun h => ⟨fun range _ => range.low_le_high, fun m _ => m.one_le_val, h⟩⟩

lemma WellFormed.sound (h : r.WellFormed) : r.Sound := by
  refine sound_iff.2 fun his => ?_
  obtain ⟨x, hx⟩ := h.is_single his
  exact ⟨.single x, hx, rfl⟩

lemma sound_of_ne_is (h : r.comparison ≠ .is) : r.Sound :=
  sound_iff.2 fun his => absurd his h

lemma Sound.not (h : r.Sound) : r.not.Sound :=
  ⟨h.low_le_high, h.modulus_pos, h.is_single⟩

end Relation

/-! ### Conditions that are made -/

namespace Condition

/-- The conditions that are read from texts, and that the constructors and connectives build. -/
inductive Made : Condition → Prop where
  | read {s : String} {r : Rule} (h : Rule.ofText s = .ok r) : Made r.condition
  | is (x : Expr) (value : UInt64) : Made (.atom (x.is value))
  | isNot (x : Expr) (value : UInt64) : Made (.atom (x.isNot value))
  | inRanges (x : Expr) (ranges : List Range) : Made (.atom (x.inRanges ranges))
  | notIn (x : Expr) (ranges : List Range) : Made (.atom (x.notIn ranges))
  | within (x : Expr) (ranges : List Range) : Made (.atom (x.within ranges))
  | notWithin (x : Expr) (ranges : List Range) : Made (.atom (x.notWithin ranges))
  | always : Made .always
  | and {a b : Condition} (ha : Made a) (hb : Made b) : Made (a.and b)
  | or {a b : Condition} (ha : Made a) (hb : Made b) : Made (a.or b)
  | not {r : Relation} (h : Made (.atom r)) : Made (.atom r.not)

lemma sound_atom_iff {r : Relation} : Sound (.atom r) ↔ r.Sound := by
  rw [Sound, Formula.atoms_atom, List.forall_mem_singleton]

/-- What is made is sound: each way to make a condition keeps its relations sound. -/
theorem Made.sound {c : Condition} (h : Made c) : c.Sound := by
  induction h with
  | @read s r h =>
      have hcanonical := canonical_of_spellsRule (Rule.ofText_eq_ok_iff.1 h)
      exact fun r hr => (hcanonical.wellFormed r hr).sound
  | is x value => exact sound_atom_iff.2 (x.wellFormed_is value).sound
  | isNot x value => exact sound_atom_iff.2 (x.wellFormed_is value).sound.not
  | inRanges x ranges => exact sound_atom_iff.2 (Relation.sound_of_ne_is nofun)
  | notIn x ranges => exact sound_atom_iff.2 (Relation.sound_of_ne_is nofun)
  | within x ranges => exact sound_atom_iff.2 (Relation.sound_of_ne_is nofun)
  | notWithin x ranges => exact sound_atom_iff.2 (Relation.sound_of_ne_is nofun)
  | always => exact nofun
  | and _ _ ha hb => exact fun r hr => (Formula.mem_atoms_and hr).elim (ha r) (hb r)
  | or _ _ ha hb =>
      rw [Sound, Formula.atoms_or, List.forall_mem_append]
      exact ⟨ha, hb⟩
  | not _ h => exact sound_atom_iff.2 (sound_atom_iff.1 h).not

end Condition

/-! ### Conditions that are decoded -/

/-- The comparison of a relation value, an object or a list, is `is`. -/
def Json.SaysIs (j : Json) : Prop :=
  ∃ k, j.member? Relation.fields "kind" = some k ∧
    (k = .text "Is" ∨ k = .object [("Is", .null)])

/-- A relation value, an object or a list, has one range value, whose bounds are equal. -/
def Json.ListsOneValue (j : Json) : Prop :=
  ∃ i, j.member? Relation.fields "ranges" = some (.list [i]) ∧
    i.member? Range.fields "low" = i.member? Range.fields "high"

lemma Range.low_eq_high_iff_of_ofJson {j : Json} {r : Range} (h : Range.ofJson j = .ok r) :
    r.low = r.high ↔ j.member? fields "low" = j.member? fields "high" := by
  obtain ⟨hlow, hhigh⟩ := Range.exists_of_ofJson h
  rw [hlow, hhigh, Option.some_inj, Json.ofWord_inj]

/-- A decoded relation is sound exactly if its value lists one value for an `is`. -/
lemma Relation.sound_iff_of_ofJson {j : Json} {r : Relation} (h : Relation.ofJson j = .ok r) :
    r.Sound ↔ (j.SaysIs → j.ListsOneValue) := by
  obtain ⟨⟨k, hk, hcomparison⟩, items, hitems, hranges⟩ := Relation.exists_of_ofJson h
  have his : r.comparison = .is ↔ j.SaysIs := by
    have hkind : r.comparison = .is ↔ Comparison.ofJson k = .ok .is := by
      rw [hcomparison, Except.ok.injEq]
    rw [hkind, Comparison.ofJson_eq_is_iff, Json.SaysIs]
    constructor
    · exact fun hname => ⟨k, hk, hname⟩
    · rintro ⟨k', hk', hname⟩
      obtain rfl : k = k' := Option.some.inj (hk.symm.trans hk')
      exact hname
  have hvalue : (∃ range, r.ranges = [range] ∧ range.low = range.high) ↔ j.ListsOneValue := by
    rw [Json.ListsOneValue]
    constructor
    · rintro ⟨range, hsingle, heq⟩
      rw [hsingle] at hranges
      obtain ⟨i, rest, hi, hrest, rfl⟩ := List.forall₂_cons_right_iff.1 hranges
      obtain rfl := List.forall₂_nil_right_iff.1 hrest
      exact ⟨i, hitems, (Range.low_eq_high_iff_of_ofJson hi).1 heq⟩
    · rintro ⟨i, hi, heq⟩
      obtain rfl : items = [i] := by simpa using hitems.symm.trans hi
      obtain ⟨range, rest, hrange, hrest, hsingle⟩ := List.forall₂_cons_left_iff.1 hranges
      obtain rfl := List.forall₂_nil_left_iff.1 hrest
      exact ⟨range, hsingle, (Range.low_eq_high_iff_of_ofJson hrange).2 heq⟩
  rw [Relation.sound_iff, his, hvalue]

namespace Condition

/-- A decoded condition is sound exactly if each relation value with an `is` lists one value. -/
theorem sound_iff_of_ofJson {j : Json} {c : Condition} (h : ofJson j = .ok c) :
    c.Sound ↔ ∀ o ∈ j.relations, o.SaysIs → o.ListsOneValue :=
  (forall_mem_iff_of_forall₂ (forall₂_relations h)
    fun hr => (Relation.sound_iff_of_ofJson hr).symm).symm

/-- **Conditions from outside are sound, but for decoded lists**: a condition that is read or built
has its bounds in order, positive moduli, and one value for each `is`. A decoded condition has its
bounds in order and positive moduli; it has one value for each `is` exactly if each relation value
with an `is` has one range value with equal bounds, be they objects or lists. -/
theorem sound_from_outside (c : Condition) :
    (c.Made → c.Sound) ∧
      ∀ j, ofJson j = .ok c →
        (∀ r ∈ c.atoms, (∀ range ∈ r.ranges, range.low ≤ range.high) ∧
          ∀ m ∈ r.expr.modulus?, 1 ≤ m.val) ∧
        (c.Sound ↔ ∀ o ∈ j.relations, o.SaysIs → o.ListsOneValue) := by
  refine ⟨Made.sound, fun j h => ⟨fun r _ => ⟨?_, ?_⟩, sound_iff_of_ofJson h⟩⟩
  · exact fun range _ => range.low_le_high
  · exact fun m _ => m.one_le_val

/-- What is decoded from an `is` with one value is sound, from objects and from lists, and so is what
is built with it read from a text. -/
theorem sound_from_outside_of_single :
    (∀ j ∈ [Json.object [
          ("expr", .object [("modulus", .integer 10), ("operand", .text "N")]),
          ("kind", .text "Is"), ("negated", .bool true),
          ("ranges", .list [.object [("high", .integer 1), ("low", .integer 1)]])],
        .list [.list [.text "N", .integer 10], .bool true, .text "Is",
          .list [.list [.integer 1, .integer 1]]]],
      ∃ c, ofJson (.object [("Relation", j)]) = .ok c ∧ c.Sound) ∧
      Sound (Formula.and (.atom (Expr.within ⟨.n, none⟩ [⟨0, 2, by decide⟩]))
        (.any [.atom (Expr.is ⟨.v, none⟩ 0), .atom (Expr.notIn ⟨.i, none⟩ [.single 1])])) := by
  constructor
  · have hsound {j : Json} (hvalue : j.ListsOneValue) (hdecoded : ofJson (.object [("Relation", j)]) =
          .ok (.atom ⟨⟨.n, some ⟨10, by decide⟩⟩, true, .is, [⟨1, 1, by decide⟩]⟩)) :
        ∃ c, ofJson (.object [("Relation", j)]) = .ok c ∧ c.Sound := by
      refine ⟨_, hdecoded, ((sound_from_outside _).2 _ hdecoded).2.2 ?_⟩
      rw [Json.relations, List.forall_mem_singleton]
      exact fun _ => hvalue
    rw [List.forall_mem_cons, List.forall_mem_singleton]
    exact ⟨hsound ⟨_, rfl, rfl⟩ rfl, hsound ⟨_, rfl, rfl⟩ rfl⟩
  · have hread : Rule.ofText "v is 0 or i not in 1" =
        .ok ⟨.any [.atom (Expr.is ⟨.v, none⟩ 0), .atom (Expr.notIn ⟨.i, none⟩ [.single 1])], []⟩ :=
      rfl
    exact (sound_from_outside _).1 (.and (.within _ _) (.read hread))

/-- A decoded `is` with a range of two values is not sound, and its text is no rule. It is decoded
from an object and from a list. -/
theorem not_sound_of_decoded_range :
    ∃ j i c, j = Json.object [("Relation", .object [
        ("expr", .object [("modulus", .null), ("operand", .text "N")]),
        ("kind", .text "Is"), ("negated", .bool false),
        ("ranges", .list [.object [("high", .integer 2), ("low", .integer 1)]])])] ∧
      i = Json.object [("Relation", .list [.list [.text "N", .null], .bool false, .text "Is",
        .list [.list [.integer 1, .integer 2]]])] ∧
      ofJson j = .ok c ∧ ofJson i = .ok c ∧ ¬ c.Sound ∧ Condition.text c = "n is 1..2" ∧
      ∃ e, Rule.ofText (Condition.text c) = .error e := by
  have htext : Condition.text (.atom ⟨⟨.n, none⟩, false, .is, [⟨1, 2, by decide⟩]⟩) =
      "n is 1..2" := rfl
  refine ⟨_, _, .atom ⟨⟨.n, none⟩, false, .is, [⟨1, 2, by decide⟩]⟩, rfl, rfl, rfl, rfl, ?_, htext,
    ?_⟩
  · intro h
    obtain ⟨range, hranges, heq⟩ := (sound_atom_iff.1 h).is_single rfl
    obtain rfl : ⟨1, 2, by decide⟩ = range := by simpa using hranges
    exact absurd heq (by decide)
  · rw [htext]
    exact ⟨⟨6, .leftover, some "..2"⟩, rfl⟩

end Condition

end PluralRules
