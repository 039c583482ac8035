import Mathlib.Tactic
import PluralRules.Condition.Json
import PluralRules.Proofs.Reading.Basic

/-!
What a decoded condition has from its JSON.

A structure is decoded member by member, and no field may come twice. So each part of the result
comes from the one member of its name, or from the one item in its place. A decoded range, and a
decoded relation, can be looked up in the value that it was decoded from; and a decoded condition
has one relation for each relation value.

* `Json.member?`: the value of a field, in an object or in a list.
* `Json.Distinct`, `Json.readStructure_eq_ok_iff`: what is read has no field twice.
* `Json.Fills.exists_member`: where a part of a draft comes from.
* `Range.exists_of_ofJson`, `Relation.exists_of_ofJson`: where the parts of a range, of a relation
  come from.
* `Json.relations`, `Condition.forall₂_relations`: the relation values of a condition, from left to
  right, are decoded as its relations.
-/

namespace PluralRules

open Reading (bind_eq_ok pure_eq_ok)

/-- A list is decoded item by item. -/
lemma mapM_eq_ok_iff {α β ε : Type} {f : α → Except ε β} {xs : List α} {ys : List β} :
    xs.mapM f = .ok ys ↔ List.Forall₂ (fun x y => f x = .ok y) xs ys := by
  induction xs generalizing ys with
  | nil => cases ys <;> simp [pure_eq_ok]
  | cons x xs ih =>
      simp only [List.mapM_cons, bind_eq_ok, pure_eq_ok, List.forall₂_cons_left_iff]
      constructor
      · rintro ⟨y, hy, zs, hzs, rfl⟩
        exact ⟨y, zs, hy, ih.1 hzs, rfl⟩
      · rintro ⟨y, zs, hy, hzs, rfl⟩
        exact ⟨y, hy, zs, ih.2 hzs, rfl⟩

lemma forall_mem_iff_of_forall₂ {α β : Type} {R : α → β → Prop} {p : α → Prop} {q : β → Prop}
    {xs : List α} {ys : List β} (h : List.Forall₂ R xs ys) (hpq : ∀ {x y}, R x y → (p x ↔ q y)) :
    (∀ x ∈ xs, p x) ↔ ∀ y ∈ ys, q y := by
  induction h with
  | nil => simp
  | cons hxy _ ih => rw [List.forall_mem_cons, List.forall_mem_cons, hpq hxy, ih]

/-! ### Members of a structure -/

namespace Json

/-- The value of a field, if there is one of its name. -/
def member? (names : List String) (name : String) (j : Json) : Option Json :=
  (j.members names).lookup name

/-- No two members have the same one of some names. -/
def Distinct (names : List String) (members : List (String × Json)) : Prop :=
  members.Pairwise fun m m' => m.1 ∈ names → m.1 ≠ m'.1

variable {D α : Type} {add : D → String × Json → Except JsonError D} {names seen : List String}
  {members : List (String × Json)} {d d' : D}

/-- What has not been seen after one more name. -/
lemma notMem_seen_iff {key name : String} :
    name ∉ (if key ∈ names then key :: seen else seen) ↔
      (key ∈ names → key ≠ name) ∧ name ∉ seen := by
  split_ifs with hkey
  · rw [List.mem_cons, not_or, imp_iff_right hkey, ne_comm]
  · rw [and_iff_right fun h => absurd h hkey]

/-- A field that comes twice is refused, and so is one that was seen before. -/
lemma distinct_of_readMembers (h : readMembers names add seen d members = .ok d') :
    Distinct names members ∧ ∀ m ∈ members, m.1 ∉ seen := by
  induction members generalizing seen d with
  | nil => exact ⟨.nil, nofun⟩
  | cons m members ih =>
      by_cases hseen : m.1 ∈ seen
      · rw [readMembers, if_pos hseen] at h
        exact nomatch h
      rw [readMembers, if_neg hseen] at h
      obtain ⟨d₁, -, hmembers⟩ := bind_eq_ok.1 h
      obtain ⟨hdistinct, hunseen⟩ := ih hmembers
      simp only [notMem_seen_iff] at hunseen
      refine ⟨List.pairwise_cons.2 ⟨fun m' hm' => (hunseen m' hm').1, hdistinct⟩, ?_⟩
      rw [List.forall_mem_cons]
      exact ⟨hseen, fun m' hm' => (hunseen m' hm').2⟩

/-- If no field comes twice, the members are read one after the other. -/
lemma readMembers_eq_foldlM (hdistinct : Distinct names members)
    (hunseen : ∀ m ∈ members, m.1 ∉ seen) :
    readMembers names add seen d members = members.foldlM add d := by
  induction members generalizing seen d with
  | nil => rfl
  | cons m members ih =>
      obtain ⟨hm, hdistinct⟩ := List.pairwise_cons.1 hdistinct
      rw [List.forall_mem_cons] at hunseen
      rw [readMembers, if_neg hunseen.1, List.foldlM_cons]
      refine bind_congr fun d₁ => ih hdistinct fun m' hm' => ?_
      exact notMem_seen_iff.2 ⟨hm m' hm', hunseen.2 m' hm'⟩

/-- Fields are read from an object, or from a list of their number, in which none comes twice; then
they are read one after the other. -/
lemma readStructure_eq_ok_iff {j : Json} : j.readStructure names add d = .ok d' ↔
    j.isStructure names ∧ Distinct names (j.members names) ∧
      (j.members names).foldlM add d = .ok d' := by
  constructor
  · intro h
    obtain ⟨d₁, hread, hstructure⟩ := bind_eq_ok.1 h
    split_ifs at hstructure with hfields
    obtain rfl : d₁ = d' := pure_eq_ok.1 hstructure
    obtain ⟨hdistinct, hunseen⟩ := distinct_of_readMembers hread
    rw [readMembers_eq_foldlM hdistinct hunseen] at hread
    exact ⟨hfields, hdistinct, hread⟩
  · rintro ⟨hfields, hdistinct, hread⟩
    rw [← readMembers_eq_foldlM hdistinct fun _ _ => List.not_mem_nil] at hread
    exact bind_eq_ok.2 ⟨d', hread, if_pos hfields⟩

/-- A part of a draft is read from the members of one name, and only from these. -/
structure Fills (add : D → String × Json → Except JsonError D) (name : String)
    (part : D → Option α) (read : Json → Except JsonError α) : Prop where
  same : ∀ {d d' j}, add d (name, j) = .ok d' → ∃ x, read j = .ok x ∧ part d' = some x
  other : ∀ {d d' key j}, key ≠ name → add d (key, j) = .ok d' → part d' = part d

namespace Fills

variable {name : String} {part : D → Option α} {read : Json → Except JsonError α}
  (fills : Fills add name part read)

include fills

lemma part_eq_of_foldlM (hnone : ∀ i, (name, i) ∉ members) (h : members.foldlM add d = .ok d') :
    part d' = part d := by
  induction members generalizing d with
  | nil =>
      obtain rfl : d = d' := pure_eq_ok.1 h
      rfl
  | cons m members ih =>
      obtain ⟨d₁, hadd, hmembers⟩ := bind_eq_ok.1 h
      have hkey : m.1 ≠ name := by
        rintro rfl
        exact hnone m.2 List.mem_cons_self
      rw [ih (fun i hi => hnone i (List.mem_cons_of_mem _ hi)) hmembers, fills.other hkey hadd]

lemma exists_part_of_foldlM (hdistinct : Distinct names members) (hname : name ∈ names) {i : Json}
    (hi : (name, i) ∈ members) (h : members.foldlM add d = .ok d') :
    ∃ x, read i = .ok x ∧ part d' = some x := by
  induction members generalizing d with
  | nil => exact absurd hi List.not_mem_nil
  | cons m members ih =>
      obtain ⟨d₁, hadd, hmembers⟩ := bind_eq_ok.1 h
      obtain ⟨hm, hdistinct⟩ := List.pairwise_cons.1 hdistinct
      rcases List.mem_cons.1 hi with rfl | hi
      · -- The name does not come again, so the part keeps what was read here.
        obtain ⟨x, hread, hx⟩ := fills.same hadd
        have hlast : part d' = part d₁ :=
          fills.part_eq_of_foldlM (fun k hk => hm _ hk hname rfl) hmembers
        exact ⟨x, hread, hlast.trans hx⟩
      · exact ih hdistinct hi hmembers

section Structures

variable {j : Json} (h : j.readStructure names add d = .ok d')

include h

/-- A part of a draft stays as it is where no member has its name. -/
lemma part_eq_start (hnone : ∀ i, (name, i) ∉ j.members names) : part d' = part d :=
  fills.part_eq_of_foldlM hnone (readStructure_eq_ok_iff.1 h).2.2

/-- A part of a draft is read from the one member of its name. -/
lemma exists_part (hname : name ∈ names) {i : Json} (hi : (name, i) ∈ j.members names) :
    ∃ x, read i = .ok x ∧ part d' = some x := by
  obtain ⟨-, hdistinct, hmembers⟩ := readStructure_eq_ok_iff.1 h
  exact fills.exists_part_of_foldlM hdistinct hname hi hmembers

/-- What is required of a draft was read from the field of its name. -/
lemma exists_member (hname : name ∈ names) (hd : part d = none) {x : α}
    (hx : required (part d') = .ok x) : ∃ i, j.member? names name = some i ∧ read i = .ok x := by
  have hpart : part d' = some x := by
    cases hpart : part d' <;> simp_all [required]
  rw [member?]
  cases hlookup : (j.members names).lookup name with
  | some i =>
      obtain ⟨before, after, hmembers, -⟩ := List.lookup_eq_some_iff.1 hlookup
      have hi : (name, i) ∈ j.members names := by simp [hmembers]
      obtain ⟨y, hy, hparty⟩ := fills.exists_part h hname hi
      obtain rfl : y = x := Option.some.inj (hparty.symm.trans hpart)
      exact ⟨i, rfl, hy⟩
  | none =>
      have hnone : ∀ i, (name, i) ∉ j.members names := fun i hi => by
        simpa using List.lookup_eq_none_iff.1 hlookup _ hi
      rw [fills.part_eq_start h hnone, hd] at hpart
      exact nomatch hpart

end Structures

end Fills

/-- An integer of 64 bits is written in one way. -/
lemma toWord_eq_ok_iff {j : Json} {x : UInt64} : j.toWord = .ok x ↔ j = .ofWord x := by
  constructor
  · intro h
    unfold toWord at h
    split at h
    · split_ifs at h with hlt
      obtain rfl : UInt64.ofNat _ = x := by simpa using h
      rw [ofWord, UInt64.toNat_ofNat_of_lt' hlt]
      rfl
    · exact nomatch h
  · rintro rfl
    show (if x.toNat < 2 ^ 64 then Except.ok (UInt64.ofNat x.toNat)
      else .error JsonError.malformed) = .ok x
    rw [if_pos x.toNat_lt, UInt64.ofNat_toNat]

lemma ofWord_inj {x y : UInt64} : ofWord x = ofWord y ↔ x = y := by
  rw [ofWord, ofWord, integer.injEq, Int.ofNat_inj, UInt64.toNat_inj]

end Json

/-! ### Ranges and relations -/

lemma Range.Draft.fills_low : Json.Fills Draft.add "low" Draft.low? Json.toWord where
  same hadd := by
    obtain ⟨x, hx, heq⟩ := bind_eq_ok.1 hadd
    exact ⟨x, hx, by rw [← pure_eq_ok.1 heq]⟩
  other hkey hadd := by
    unfold add at hadd
    split at hadd <;> grind [bind_eq_ok, pure_eq_ok]

lemma Range.Draft.fills_high : Json.Fills Draft.add "high" Draft.high? Json.toWord where
  same hadd := by
    obtain ⟨x, hx, heq⟩ := bind_eq_ok.1 hadd
    exact ⟨x, hx, by rw [← pure_eq_ok.1 heq]⟩
  other hkey hadd := by
    unfold add at hadd
    split at hadd <;> grind [bind_eq_ok, pure_eq_ok]

lemma Relation.Draft.fills_comparison :
    Json.Fills Draft.add "kind" Draft.comparison? Comparison.ofJson where
  same hadd := by
    obtain ⟨c, hc, heq⟩ := bind_eq_ok.1 hadd
    exact ⟨c, hc, by rw [← pure_eq_ok.1 heq]⟩
  other hkey hadd := by
    unfold add at hadd
    split at hadd <;> grind [bind_eq_ok, pure_eq_ok]

lemma Relation.Draft.fills_ranges :
    Json.Fills Draft.add "ranges" Draft.ranges? fun j => do (← j.toList).mapM Range.ofJson where
  same hadd := by
    simp only [add, bind_eq_ok, pure_eq_ok] at hadd
    obtain ⟨items, hitems, ranges, hranges, rfl⟩ := hadd
    exact ⟨ranges, bind_eq_ok.2 ⟨items, hitems, hranges⟩, rfl⟩
  other hkey hadd := by
    unfold add at hadd
    split at hadd <;> grind [bind_eq_ok, pure_eq_ok]

/-- A decoded range has the bounds that stand in its value. -/
lemma Range.exists_of_ofJson {j : Json} {r : Range} (h : Range.ofJson j = .ok r) :
    j.member? fields "low" = some (.ofWord r.low) ∧
      j.member? fields "high" = some (.ofWord r.high) := by
  simp only [Range.ofJson, bind_eq_ok] at h
  obtain ⟨d, hd, low, hlow, high, hhigh, hr⟩ := h
  obtain ⟨rfl, rfl⟩ : r.low = low ∧ r.high = high := by
    rw [← Range.ofBounds?_eq_some_iff]
    cases hbounds : Range.ofBounds? low high with
    | none => simp [hbounds] at hr
    | some p =>
        simp only [hbounds, pure_eq_ok] at hr
        rw [hr]
  obtain ⟨i, hi, hireads⟩ := Draft.fills_low.exists_member hd (by decide) rfl hlow
  obtain ⟨k, hk, hkreads⟩ := Draft.fills_high.exists_member hd (by decide) rfl hhigh
  rw [hi, hk, Json.toWord_eq_ok_iff.1 hireads, Json.toWord_eq_ok_iff.1 hkreads]
  exact ⟨rfl, rfl⟩

/-- A decoded relation has the comparison that stands in its value, and for each range value of its
list a range. -/
lemma Relation.exists_of_ofJson {j : Json} {r : Relation} (h : Relation.ofJson j = .ok r) :
    (∃ k, j.member? fields "kind" = some k ∧ Comparison.ofJson k = .ok r.comparison) ∧
      ∃ items, j.member? fields "ranges" = some (.list items) ∧
        List.Forall₂ (fun i range => Range.ofJson i = .ok range) items r.ranges := by
  simp only [Relation.ofJson, bind_eq_ok, pure_eq_ok] at h
  obtain ⟨d, hd, x, -, negated, -, c, hc, ranges, hranges, rfl⟩ := h
  refine ⟨Draft.fills_comparison.exists_member hd (by decide) rfl hc, ?_⟩
  obtain ⟨k, hk, hread⟩ := Draft.fills_ranges.exists_member hd (by decide) rfl hranges
  obtain ⟨items, hitems, hread⟩ := bind_eq_ok.1 hread
  have hlist : k = .list items := by
    cases k <;> simp_all [Json.toList]
  exact ⟨items, by rw [hk, hlist], mapM_eq_ok_iff.1 hread⟩

/-- The comparison `is` is its name, which can also stand as the only member of an object. -/
lemma Comparison.ofJson_eq_is_iff {j : Json} :
    Comparison.ofJson j = .ok .is ↔ j = .text "Is" ∨ j = .object [("Is", .null)] := by
  constructor
  · intro h
    unfold Comparison.ofJson at h
    split at h
    · obtain ⟨name, -, h⟩ := bind_eq_ok.1 h
      split at h <;> simp [pure_eq_ok] at h
    · obtain ⟨name, hname, h⟩ := bind_eq_ok.1 h
      split at h
      · unfold Json.toName at hname
        split at hname <;> simp_all
      · exact nomatch h
  · rintro (rfl | rfl) <;> rfl

/-! ### Conditions -/

namespace Json

mutual

/-- The relation values of a condition, from left to right. -/
def relations : Json → List Json
  | .object [("Or", .list items)] => relationsEach items
  | .object [("And", .list items)] => relationsEach items
  | .object [("Relation", j)] => [j]
  | _ => []

/-- The relation values of several conditions. -/
def relationsEach : List Json → List Json
  | [] => []
  | j :: js => relations j ++ relationsEach js

end

end Json

namespace Condition

/-- The relations of a decoded condition are decoded from its relation values. -/
theorem forall₂_relations {j : Json} {c : Condition} (h : Condition.ofJson j = .ok c) :
    List.Forall₂ (fun o r => Relation.ofJson o = .ok r) j.relations c.atoms := by
  revert c
  refine Condition.ofJson.induct
    (fun j => ∀ {c : Condition}, Condition.ofJson j = .ok c →
      List.Forall₂ (fun o r => Relation.ofJson o = .ok r) j.relations c.atoms)
    (fun js => ∀ {cs : List Condition}, Condition.ofJsonEach js = .ok cs →
      List.Forall₂ (fun o r => Relation.ofJson o = .ok r) (Json.relationsEach js)
        (cs.flatMap Formula.atoms)) ?any ?all ?atom ?other ?nil ?cons j
  case any =>
    intro items ih c h
    rw [Condition.ofJson] at h
    obtain ⟨parts, hparts, heq⟩ := bind_eq_ok.1 h
    rw [← pure_eq_ok.1 heq, Formula.atoms_any, Json.relations]
    exact ih hparts
  case all =>
    intro items ih c h
    rw [Condition.ofJson] at h
    obtain ⟨parts, hparts, heq⟩ := bind_eq_ok.1 h
    rw [← pure_eq_ok.1 heq, Formula.atoms_all, Json.relations]
    exact ih hparts
  case atom =>
    intro o c h
    rw [Condition.ofJson] at h
    obtain ⟨r, hr, heq⟩ := bind_eq_ok.1 h
    rw [← pure_eq_ok.1 heq, Formula.atoms_atom, Json.relations]
    exact .cons hr .nil
  case other =>
    intro j hany hall hatom c h
    unfold Condition.ofJson at h
    split at h
    · exact absurd rfl (hany _)
    · exact absurd rfl (hall _)
    · exact absurd rfl (hatom _)
    · exact nomatch h
  case nil =>
    intro cs h
    rw [← pure_eq_ok.1 h]
    exact .nil
  case cons =>
    intro j js ih ihs cs h
    simp only [Condition.ofJsonEach, bind_eq_ok, pure_eq_ok] at h
    obtain ⟨c, hc, cs, hcs, rfl⟩ := h
    rw [Json.relationsEach, List.flatMap_cons]
    exact List.rel_append (ih hc) (ihs hcs)

end Condition

end PluralRules
