import PluralRules.Proofs.Unchecked

/-!
JSON values that encode conditions.

The members of an object may stand in any order, others may stand among them, and a modulus may be
missing where there is none. So a condition has many encodings, of which `Condition.toJson` is one,
and all of them are decoded alike. Ranges are encoded by their bounds, which nothing keeps in order
there; what is encoded is an unchecked condition, and decoding is its check.

* `Json.ObjectOf`: objects with some members, and with others that do not count.
* `Range.Encodes`, `Expr.Encodes`, `Relation.Encodes`, `Condition.Encodes`: which values encode
  which conditions.
* `Range.ofJson_eq_check`, `Relation.ofJson_eq_check`, `Condition.ofJson_eq_check`: decoding is the
  check of what was encoded.
* `Condition.ofJson_own_json`: conditions are decoded from all their encodings.
* `Condition.ofJson_of_encodes`: an encoding of inverted bounds is refused for the first of them.
-/

namespace PluralRules

open Reading (bind_eq_ok pure_eq_ok)

/-! ### Objects -/

namespace Json

/-- A value is an object of given members and of others, whose names are not among some known ones,
in any order. -/
inductive ObjectOf (names : List String) (given : List (String × Json)) : Json → Prop where
  | intro {members others : List (String × Json)} (order : members.Perm (given ++ others))
      (unknown : ∀ m ∈ others, m.1 ∉ names) : ObjectOf names given (.object members)

section Drafts

variable {D α : Type} {add : D → String × Json → Except JsonError D} {names : List String}
  {given : List (String × Json)} {name : String} {d d' : D} {i j : Json}

namespace ObjectOf

lemma self (names : List String) (given : List (String × Json)) :
    ObjectOf names given (.object given) :=
  @intro names given given [] (by rw [List.append_nil]) nofun

variable (h : ObjectOf names given j)

include h

lemma forall_mem {p : String × Json → Prop} (hgiven : ∀ m ∈ given, p m)
    (hother : ∀ m, m.1 ∉ names → p m) : ∀ m ∈ j.members names, p m := by
  obtain ⟨order, unknown⟩ := h
  intro m hm
  rcases List.mem_append.1 (order.mem_iff.1 hm) with hm | hm
  · exact hgiven m hm
  · exact hother m (unknown m hm)

/-- Of the known names, an object has the given members and no others. -/
lemma mem_members_iff (hname : name ∈ names) :
    (name, i) ∈ j.members names ↔ (name, i) ∈ given := by
  obtain ⟨order, unknown⟩ := h
  rw [Json.members, order.mem_iff, List.mem_append]
  exact or_iff_left fun hother => unknown _ hother hname

/-- If the given members have names of their own, no field comes twice. -/
lemma distinct (hnames : (given.map Prod.fst).Nodup) : Distinct names (j.members names) := by
  obtain ⟨order, unknown⟩ := h
  have hsymm {m m' : String × Json} (hne : m.1 ∈ names → m.1 ≠ m'.1) :
      m'.1 ∈ names → m'.1 ≠ m.1 := fun hm' heq => hne (heq ▸ hm') heq.symm
  rw [Distinct, Json.members, order.pairwise_iff hsymm, List.pairwise_append]
  refine ⟨?_, ?_, fun m _ m' hm' hm heq => unknown m' hm' (heq ▸ hm)⟩
  · rw [List.Nodup, List.pairwise_map] at hnames
    refine hnames.imp ?_
    exact fun hne _ => hne
  · exact List.pairwise_of_forall_mem_list fun m hm m' _ hname => absurd hname (unknown m hm)

lemma readStructure_eq_foldlM (hnames : (given.map Prod.fst).Nodup) :
    j.readStructure names add d = (j.members names).foldlM add d := by
  have hdistinct := h.distinct hnames
  have hunseen : ∀ m ∈ j.members names, m.1 ∉ ([] : List String) := fun m _ => List.not_mem_nil
  obtain ⟨order, unknown⟩ := h
  rw [readStructure, readMembers_eq_foldlM hdistinct hunseen]
  exact bind_pure _

/-- If each given member can be read, and what has an unknown name is passed over, the fields can be
read. -/
lemma exists_readStructure (hnames : (given.map Prod.fst).Nodup)
    (hgiven : ∀ m ∈ given, ∀ d, ∃ d', add d m = .ok d')
    (hother : ∀ m, m.1 ∉ names → ∀ d, add d m = .ok d) (d : D) :
    ∃ d', j.readStructure names add d = .ok d' := by
  rw [h.readStructure_eq_foldlM hnames]
  have hread := h.forall_mem hgiven fun m hm d => ⟨d, hother m hm d⟩
  generalize j.members names = members at hread
  induction members generalizing d with
  | nil => exact ⟨d, rfl⟩
  | cons m members ih =>
      rw [List.forall_mem_cons] at hread
      obtain ⟨d₁, hd₁⟩ := hread.1 d
      obtain ⟨d', hd'⟩ := ih d₁ hread.2
      exact ⟨d', bind_eq_ok.2 ⟨d₁, hd₁, hd'⟩⟩

/-- If the member of one field is refused, and the others can be read, the fields are refused. -/
lemma readStructure_eq_error (hnames : (given.map Prod.fst).Nodup) {e : JsonError}
    (hgiven : ∀ m ∈ given, (∀ d, ∃ d', add d m = .ok d') ∨ ∀ d, add d m = .error e)
    (hname : name ∈ names) (hi : (name, i) ∈ given) (hrefused : ∀ d, add d (name, i) = .error e)
    (hother : ∀ m, m.1 ∉ names → ∀ d, add d m = .ok d) (d : D) :
    j.readStructure names add d = .error e := by
  rw [h.readStructure_eq_foldlM hnames]
  have hread := h.forall_mem hgiven fun m hm => .inl fun d => ⟨d, hother m hm d⟩
  have hmem := (h.mem_members_iff hname).2 hi
  generalize j.members names = members at hread hmem
  induction members generalizing d with
  | nil => exact absurd hmem List.not_mem_nil
  | cons m members ih =>
      rw [List.forall_mem_cons] at hread
      rw [List.foldlM_cons]
      rcases hread.1 with hm | hm
      · obtain ⟨d₁, hd₁⟩ := hm d
        rw [hd₁]
        rcases List.mem_cons.1 hmem with rfl | htail
        · exact absurd (hd₁.symm.trans (hrefused d)) nofun
        · exact ih d₁ hread.2 htail
      · rw [hm d]
        rfl

end ObjectOf

/-- A part of a draft is read from the given member of its name. -/
lemma Fills.part_eq_some {part : D → Option α} {read : Json → Except JsonError α}
    (fills : Fills add name part read) (h : ObjectOf names given j) (hname : name ∈ names)
    (hi : (name, i) ∈ given) {x : α} (hread : read i = .ok x)
    (hd : j.readStructure names add d = .ok d') : part d' = some x := by
  obtain ⟨y, hy, hpart⟩ := fills.exists_part hd hname ((h.mem_members_iff hname).2 hi)
  obtain rfl : y = x := Except.ok.inj (hy.symm.trans hread)
  exact hpart

end Drafts

end Json

/-! ### Encodings -/

/-- A value encodes the bounds of a range. -/
def Range.Encodes (j : Json) (b : Bounds) : Prop :=
  j.ObjectOf ["low", "high"] [("low", .ofWord b.low), ("high", .ofWord b.high)]

/-- A value encodes an expression. The modulus can be missing if there is none. -/
inductive Expr.Encodes : Json → Expr → Prop where
  | full {j : Json} {x : Expr} (members : j.ObjectOf ["operand", "modulus"]
      [("operand", x.operand.toJson), ("modulus", Modulus.toJson x.modulus?)]) : Expr.Encodes j x
  | short {j : Json} {o : Operand} (members : j.ObjectOf ["operand", "modulus"]
      [("operand", o.toJson)]) : Expr.Encodes j ⟨o, none⟩

/-- The members of a relation, of which an expression and a list of bounds are encoded already. -/
def Relation.Unchecked.members (u : Unchecked) (x : Json) (items : List Json) :
    List (String × Json) :=
  [("expr", x), ("negated", .bool u.negated), ("kind", u.comparison.toJson),
    ("ranges", .list items)]

/-- A value encodes a relation. -/
inductive Relation.Encodes : Json → Unchecked → Prop where
  | intro {j x : Json} {items : List Json} {u : Unchecked} (expr : Expr.Encodes x u.expr)
      (bounds : List.Forall₂ Range.Encodes items u.bounds)
      (members : j.ObjectOf ["expr", "negated", "kind", "ranges"] (u.members x items)) :
      Relation.Encodes j u

/-- A value encodes a condition. -/
inductive Condition.Encodes : Json → Unchecked → Prop where
  | any {items : List Json} {parts : List Unchecked}
      (each : List.Forall₂ Condition.Encodes items parts) :
      Condition.Encodes (.object [("Or", .list items)]) (.any parts)
  | all {items : List Json} {parts : List Unchecked}
      (each : List.Forall₂ Condition.Encodes items parts) :
      Condition.Encodes (.object [("And", .list items)]) (.all parts)
  | atom {j : Json} {u : Relation.Unchecked} (relation : Relation.Encodes j u) :
      Condition.Encodes (.object [("Relation", j)]) (.atom u)

/-! ### Ranges and expressions -/

lemma Range.Draft.add_eq_self (m : String × Json) (h : m.1 ∉ ["low", "high"]) (d : Draft) :
    d.add m = .ok d := by
  unfold add
  split <;> simp_all

/-- Decoding a range is checking its bounds. -/
theorem Range.ofJson_eq_check {j : Json} {b : Bounds} (h : Encodes j b) : ofJson j = b.check := by
  have hlow : (Json.ofWord b.low).toWord = .ok b.low := Json.toWord_eq_ok_iff.2 rfl
  have hhigh : (Json.ofWord b.high).toWord = .ok b.high := Json.toWord_eq_ok_iff.2 rfl
  have hgiven : ∀ m ∈ [("low", Json.ofWord b.low), ("high", Json.ofWord b.high)], ∀ d : Draft,
      ∃ d', d.add m = .ok d' := by
    rw [List.forall_mem_cons, List.forall_mem_singleton]
    exact ⟨fun d => ⟨_, by rw [Draft.add, hlow]; rfl⟩, fun d => ⟨_, by rw [Draft.add, hhigh]; rfl⟩⟩
  obtain ⟨d, hd⟩ :=
    Json.ObjectOf.exists_readStructure h (by simp) hgiven Draft.add_eq_self {}
  obtain rfl : d = ⟨some b.low, some b.high⟩ := by
    rw [← Draft.fills_low.part_eq_some h (by simp) (by simp) hlow hd,
      ← Draft.fills_high.part_eq_some h (by simp) (by simp) hhigh hd]
  rw [ofJson, fields, hd]
  rfl

lemma Operand.ofJson_toJson (o : Operand) : ofJson o.toJson = .ok o := by
  cases o <;> rfl

lemma Modulus.ofJson_toJson (m? : Option Modulus) : ofJson (toJson m?) = .ok m? := by
  cases m? with
  | none => rfl
  | some m =>
      have hvalue : ofValue? m.val = some m := by rw [ofValue?, dif_neg m.ne_zero]
      show (Json.ofWord m.val).toWord.bind _ = _
      rw [Json.toWord_eq_ok_iff.2 rfl]
      simp only [Except.bind, hvalue]
      rfl

namespace Expr

lemma Draft.fills_operand : Json.Fills Draft.add "operand" Draft.operand? Operand.ofJson where
  same hadd := by
    obtain ⟨o, ho, heq⟩ := bind_eq_ok.1 hadd
    exact ⟨o, ho, by rw [← pure_eq_ok.1 heq]⟩
  other hkey hadd := by
    unfold add at hadd
    split at hadd <;> grind [bind_eq_ok, pure_eq_ok]

lemma Draft.fills_modulus :
    Json.Fills Draft.add "modulus" (fun d => some d.modulus?) Modulus.ofJson where
  same hadd := by
    obtain ⟨m?, hm, heq⟩ := bind_eq_ok.1 hadd
    exact ⟨m?, hm, by rw [← pure_eq_ok.1 heq]⟩
  other hkey hadd := by
    unfold add at hadd
    split at hadd <;> grind [bind_eq_ok, pure_eq_ok]

lemma Draft.add_eq_self (m : String × Json) (h : m.1 ∉ ["operand", "modulus"]) (d : Draft) :
    d.add m = .ok d := by
  unfold add
  split <;> simp_all

lemma Draft.exists_add_operand (o : Operand) (d : Draft) :
    ∃ d', d.add ("operand", o.toJson) = .ok d' :=
  ⟨_, by rw [add, Operand.ofJson_toJson]; rfl⟩

lemma ofJson_of_draft {j : Json} {x : Expr}
    (h : j.readStructure fields Draft.add {} = .ok ⟨some x.operand, x.modulus?⟩) :
    ofJson j = .ok x := by
  rw [ofJson, h]
  rfl

/-- An expression is decoded from each of its encodings. -/
theorem ofJson_eq_ok {j : Json} {x : Expr} (h : Encodes j x) : ofJson j = .ok x := by
  cases h with
  | full h =>
      have hgiven : ∀ m ∈ [("operand", x.operand.toJson), ("modulus", Modulus.toJson x.modulus?)],
          ∀ d : Draft, ∃ d', d.add m = .ok d' := by
        rw [List.forall_mem_cons, List.forall_mem_singleton]
        exact ⟨Draft.exists_add_operand x.operand,
          fun d => ⟨_, by rw [Draft.add, Modulus.ofJson_toJson]; rfl⟩⟩
      obtain ⟨d, hd⟩ := h.exists_readStructure (by simp) hgiven Draft.add_eq_self {}
      have ho := Draft.fills_operand.part_eq_some h (by simp) (by simp)
        (Operand.ofJson_toJson x.operand) hd
      have hm := Draft.fills_modulus.part_eq_some h (by simp) (by simp)
        (Modulus.ofJson_toJson x.modulus?) hd
      refine ofJson_of_draft ?_
      rw [fields, hd, ← ho, ← Option.some.inj hm]
  | @short o h =>
      have hgiven : ∀ m ∈ [("operand", o.toJson)], ∀ d : Draft, ∃ d', d.add m = .ok d' := by
        rw [List.forall_mem_singleton]
        exact Draft.exists_add_operand o
      obtain ⟨d, hd⟩ := h.exists_readStructure (by simp) hgiven Draft.add_eq_self {}
      have ho := Draft.fills_operand.part_eq_some h (by simp) (by simp)
        (Operand.ofJson_toJson o) hd
      have hnone : ∀ i, ("modulus", i) ∉ j.members ["operand", "modulus"] := fun i hi => by
        simpa using (h.mem_members_iff (by simp)).1 hi
      have hm : d.modulus? = none := Option.some.inj (Draft.fills_modulus.part_eq_start hd hnone)
      refine ofJson_of_draft ?_
      rw [fields, hd, ← ho, ← hm]

end Expr

/-! ### Relations -/

lemma Comparison.ofJson_toJson (c : Comparison) : ofJson c.toJson = .ok c := by
  cases c <;> rfl

namespace Relation

lemma Draft.fills_expr : Json.Fills Draft.add "expr" Draft.expr? Expr.ofJson where
  same hadd := by
    obtain ⟨x, hx, heq⟩ := bind_eq_ok.1 hadd
    exact ⟨x, hx, by rw [← pure_eq_ok.1 heq]⟩
  other hkey hadd := by
    unfold add at hadd
    split at hadd <;> grind [bind_eq_ok, pure_eq_ok]

lemma Draft.fills_negated : Json.Fills Draft.add "negated" Draft.negated? Json.toBool where
  same hadd := by
    obtain ⟨b, hb, heq⟩ := bind_eq_ok.1 hadd
    exact ⟨b, hb, by rw [← pure_eq_ok.1 heq]⟩
  other hkey hadd := by
    unfold add at hadd
    split at hadd <;> grind [bind_eq_ok, pure_eq_ok]

namespace Draft

lemma add_eq_self (m : String × Json) (h : m.1 ∉ ["expr", "negated", "kind", "ranges"])
    (d : Draft) : d.add m = .ok d := by
  unfold add
  split <;> simp_all

variable {u : Unchecked} {j x : Json} {items : List Json}

/-- What is given of a relation is read at any time, or refused for its bounds. -/
lemma add_members (hx : Expr.ofJson x = .ok u.expr) {p : String × Json → Prop}
    (hread : ∀ m, (∀ d : Draft, ∃ d', d.add m = .ok d') → p m)
    (hranges : p ("ranges", .list items)) : ∀ m ∈ u.members x items, p m := by
  rw [Unchecked.members, List.forall_mem_cons, List.forall_mem_cons, List.forall_mem_cons,
    List.forall_mem_singleton]
  exact ⟨hread _ fun d => ⟨_, by rw [add, hx]; rfl⟩, hread _ fun d => ⟨_, rfl⟩,
    hread _ fun d => ⟨_, by rw [add, Comparison.ofJson_toJson]; rfl⟩, hranges⟩

lemma readStructure_eq_ok (hx : Expr.ofJson x = .ok u.expr) {ranges : List Range}
    (hitems : items.mapM Range.ofJson = .ok ranges)
    (h : j.ObjectOf ["expr", "negated", "kind", "ranges"] (u.members x items)) :
    j.readStructure fields add {} =
      .ok ⟨some u.expr, some u.negated, some u.comparison, some ranges⟩ := by
  have hranges (d : Draft) : ∃ d', d.add ("ranges", .list items) = .ok d' := by
    show ∃ d', (items.mapM Range.ofJson).bind _ = .ok d'
    rw [hitems]
    exact ⟨_, rfl⟩
  obtain ⟨d, hd⟩ := h.exists_readStructure (by simp [Unchecked.members])
    (add_members hx (fun m hm => hm) hranges) add_eq_self {}
  have hnegated : Json.toBool (.bool u.negated) = .ok u.negated := rfl
  have hlist : (do (← (Json.list items).toList).mapM Range.ofJson) = .ok ranges := hitems
  rw [fields, hd,
    ← fills_expr.part_eq_some h (by simp) (by simp [Unchecked.members]) hx hd,
    ← fills_negated.part_eq_some h (by simp) (by simp [Unchecked.members]) hnegated hd,
    ← fills_comparison.part_eq_some h (by simp) (by simp [Unchecked.members])
      (Comparison.ofJson_toJson u.comparison) hd,
    ← fills_ranges.part_eq_some h (by simp) (by simp [Unchecked.members]) hlist hd]

lemma readStructure_eq_error (hx : Expr.ofJson x = .ok u.expr) {e : JsonError}
    (hitems : items.mapM Range.ofJson = .error e)
    (h : j.ObjectOf ["expr", "negated", "kind", "ranges"] (u.members x items)) :
    j.readStructure fields add {} = .error e := by
  have hranges (d : Draft) : d.add ("ranges", .list items) = .error e := by
    show (items.mapM Range.ofJson).bind _ = .error e
    rw [hitems]
    rfl
  exact h.readStructure_eq_error (by simp [Unchecked.members])
    (add_members hx (fun m hm => .inl hm) (.inr hranges)) (by simp) (by simp [Unchecked.members])
    hranges add_eq_self {}

end Draft

lemma encodes_toJson (r : Relation) : Encodes r.toJson r.unchecked := by
  refine .intro (.full (.self _ _)) ?_ (.self _ _)
  rw [unchecked, List.forall₂_map_left_iff, List.forall₂_map_right_iff, List.forall₂_same]
  exact fun range _ => Json.ObjectOf.self _ _

/-- Decoding a relation is checking its bounds. -/
theorem ofJson_eq_check {j : Json} {u : Unchecked} (h : Encodes j u) : ofJson j = u.check := by
  obtain ⟨hexpr, hbounds, h⟩ := h
  have hitems := mapM_eq_of_forall₂ hbounds fun i b _ hi => Range.ofJson_eq_check hi
  rw [Unchecked.check, ofJson]
  cases hcheck : u.bounds.mapM Range.Bounds.check with
  | ok ranges =>
      rw [Draft.readStructure_eq_ok (Expr.ofJson_eq_ok hexpr) (hitems.trans hcheck) h]
      rfl
  | error e =>
      rw [Draft.readStructure_eq_error (Expr.ofJson_eq_ok hexpr) (hitems.trans hcheck) h]
      rfl

end Relation

/-! ### Conditions -/

namespace Condition

lemma ofJsonEach_eq_mapM (items : List Json) : ofJsonEach items = items.mapM ofJson := by
  induction items with
  | nil => rw [ofJsonEach]; rfl
  | cons j js ih => rw [ofJsonEach, ih, List.mapM_cons]

/-- Decoding a condition is checking its bounds. -/
theorem ofJson_eq_check {j : Json} {u : Unchecked} (h : Encodes j u) : ofJson j = u.check := by
  induction u using Formula.induction generalizing j with
  | any parts ih =>
      cases h with
      | any each =>
          rw [ofJson, ofJsonEach_eq_mapM, mapM_eq_of_forall₂ each fun i part hpart => ih part hpart,
            Unchecked.check, Formula.traverse_any]
          rfl
  | all parts ih =>
      cases h with
      | all each =>
          rw [ofJson, ofJsonEach_eq_mapM, mapM_eq_of_forall₂ each fun i part hpart => ih part hpart,
            Unchecked.check, Formula.traverse_all]
          rfl
  | atom r =>
      cases h with
      | atom relation =>
          rw [ofJson, Relation.ofJson_eq_check relation, Unchecked.check, Formula.traverse_atom]
          rfl

/-- What is written for a condition encodes it. -/
lemma encodes_toJson (c : Condition) : Encodes (toJson c) c.unchecked := by
  induction c using Formula.induction with
  | any parts ih =>
      rw [toJson, Formula.fold_any, unchecked, Formula.map_any]
      refine .any ?_
      rw [List.forall₂_map_left_iff, List.forall₂_map_right_iff, List.forall₂_same]
      exact ih
  | all parts ih =>
      rw [toJson, Formula.fold_all, unchecked, Formula.map_all]
      refine .all ?_
      rw [List.forall₂_map_left_iff, List.forall₂_map_right_iff, List.forall₂_same]
      exact ih
  | atom r =>
      rw [toJson, Formula.fold_atom, unchecked, Formula.map_atom]
      exact .atom (Relation.encodes_toJson r)

/-- **Conditions are decoded from all their encodings**: what is written for a condition is decoded
as it, and so is what becomes of it when members of relations, expressions and ranges are put into
another order, other members are added to them, and moduli that are null are left out. -/
theorem ofJson_own_json (c : Condition) :
    ofJson (toJson c) = .ok c ∧ Encodes (toJson c) c.unchecked ∧
      ∀ j, Encodes j c.unchecked → ofJson j = .ok c := by
  have hread : ∀ j, Encodes j c.unchecked → ofJson j = .ok c := fun j h =>
    (ofJson_eq_check h).trans (Unchecked.check_eq_ok_iff.2 rfl)
  exact ⟨hread _ (encodes_toJson c), encodes_toJson c, hread⟩

/-- A group of an empty group and a relation, whose members stand in the opposite order, behind
others. -/
theorem ofJson_own_json_reversed :
    ofJson (.object [("Or", .list [.object [("And", .list [])],
        .object [("Relation", .object [("since", .number),
          ("ranges", .list [.object [("note", .null), ("high", .integer 18446744073709551615),
            ("low", .integer 2)]]),
          ("kind", .object [("InSet", .text "In")]), ("negated", .bool true),
          ("expr", .object [("low", .list []), ("operand", .text "V")])])]])]) =
      .ok (.any [.all [],
        .atom (Expr.notIn ⟨.v, none⟩ [⟨2, 18446744073709551615, by decide⟩])]) := by
  have hrange : Range.Encodes (.object [("note", .null), ("high", .integer 18446744073709551615),
      ("low", .integer 2)]) ⟨2, 18446744073709551615⟩ :=
    @Json.ObjectOf.intro _ _ _ [("note", .null)] (List.reverse_perm'.1 (.refl _)) (by simp)
  have hexpr : Expr.Encodes (.object [("low", .list []), ("operand", .text "V")]) ⟨.v, none⟩ :=
    .short (@Json.ObjectOf.intro _ _ _ [("low", .list [])] (List.reverse_perm'.1 (.refl _))
      (by simp))
  refine (ofJson_own_json _).2.2 _ (.any (.cons (.all .nil) (.cons (.atom ?_) .nil)))
  exact .intro hexpr (.cons hrange .nil)
    (@Json.ObjectOf.intro _ _ _ [("since", .number)] (List.reverse_perm'.1 (.refl _)) (by simp))

/-- **Inverted bounds are refused, the first ones by name**: an encoding with any bounds is decoded
exactly if all of them are in order, and then as the condition that has them as its ranges, in their
order. Otherwise it is refused with the wording of the first inverted ones. -/
theorem ofJson_of_encodes {j : Json} {u : Unchecked} (h : Encodes j u) :
    ((∃ c, ofJson j = .ok c) ↔ ∀ b ∈ u.bounds, b.low ≤ b.high) ∧
      (∀ c, ofJson j = .ok c →
        c.unchecked = u ∧ (c.atoms.flatMap Relation.ranges).map Range.bounds = u.bounds) ∧
      ∀ b, u.bounds.find? Range.Bounds.isInverted = some b →
        ∃ e, ofJson j = .error e ∧
          e.message? = some ("range " ++ toString b.low.toNat ++ ".." ++ toString b.high.toNat ++
            " is inverted") := by
  rw [ofJson_eq_check h]
  refine ⟨Unchecked.exists_check_iff, fun c hc => ?_, fun b hb => ?_⟩
  · exact ⟨Unchecked.check_eq_ok_iff.1 hc, Unchecked.bounds_eq_of_check hc⟩
  · exact ⟨_, Unchecked.check_eq_error hb, rfl⟩

/-- Of two ranges with inverted bounds, the first one is reported. -/
theorem ofJson_of_encodes_inverted :
    ∃ e, ofJson (.object [("And", .list [
        .object [("Relation", .object [
          ("expr", .object [("operand", .text "N"), ("modulus", .null)]),
          ("negated", .bool false), ("kind", .object [("InSet", .text "Within")]),
          ("ranges", .list [.object [("low", .integer 1), ("high", .integer 3)],
            .object [("low", .integer 5), ("high", .integer 2)]])])],
        .object [("Relation", .object [
          ("expr", .object [("operand", .text "I"), ("modulus", .integer 10)]),
          ("negated", .bool true), ("kind", .text "Is"),
          ("ranges", .list [.object [("low", .integer 9), ("high", .integer 0)]])])]])]) =
        .error e ∧
      e.message? = some "range 5..2 is inverted" := by
  have hmessage : "range " ++ toString (5 : UInt64).toNat ++ ".." ++ toString (2 : UInt64).toNat ++
      " is inverted" = "range 5..2 is inverted" := by decide
  have hfirst : Relation.Encodes _ ⟨⟨.n, none⟩, false, .within, [⟨1, 3⟩, ⟨5, 2⟩]⟩ :=
    .intro (.full (.self _ _)) (.cons (.self _ _) (.cons (.self _ _) .nil)) (.self _ _)
  have hsecond : Relation.Encodes _ ⟨⟨.i, some ⟨10, by decide⟩⟩, true, .is, [⟨9, 0⟩]⟩ :=
    .intro (.full (.self _ _)) (.cons (.self _ _) .nil) (.self _ _)
  rw [← hmessage]
  exact (ofJson_of_encodes (.all (.cons (.atom hfirst) (.cons (.atom hsecond) .nil)))).2.2 ⟨5, 2⟩
    (by decide)

end Condition

end PluralRules
