import PluralRules.Proofs.Decoding

/-!
Conditions with bounds that nobody has compared yet.

A range has its bounds in order. Where it is only written down it is two integers, and whoever reads
it has to compare them. So what is written down is an unchecked condition, with bounds in the places
of ranges, and it is the check that makes it a condition or refuses it.

* `Formula.map`, `Formula.traverse`: a change of atoms, and one that can fail.
* `Range.Bounds`, `Relation.Unchecked`, `Condition.Unchecked`: what is not checked yet.
* `Condition.Unchecked.check`: the check of all bounds, from left to right.
* `Condition.Unchecked.check_eq_ok_iff`: what passes is the condition that has just these bounds.
* `Condition.Unchecked.exists_check_iff`, `Condition.Unchecked.check_eq_error`: all of it passes if
  all bounds are in order, and else it is refused for the first that are inverted.
-/

namespace PluralRules

open Reading (bind_eq_ok pure_eq_ok)

/-! ### Lists that are checked item by item -/

section Lists

variable {α β γ δ ε : Type} {f : α → Except ε β} {xs : List α}

lemma map_eq_ok {x : Except ε α} {g : α → β} {y : β} :
    x.map g = .ok y ↔ ∃ a, x = .ok a ∧ g a = y := by
  cases x <;> simp [Except.map]

lemma map_eq_error {x : Except ε α} {g : α → β} {e : ε} : x.map g = .error e ↔ x = .error e := by
  cases x <;> simp [Except.map]

lemma exists_map_eq_ok {x : Except ε α} {g : α → β} : (∃ y, x.map g = .ok y) ↔ ∃ a, x = .ok a := by
  cases x <;> simp [Except.map]

/-- Two lists pass as the same if their items do. -/
lemma mapM_eq_of_forall₂ {R : γ → α → Prop} {g : γ → Except ε β} {zs : List γ}
    (h : List.Forall₂ R zs xs) (heq : ∀ z, ∀ x ∈ xs, R z x → g z = f x) :
    zs.mapM g = xs.mapM f := by
  induction h with
  | nil => rfl
  | cons hzx _ ih =>
      rw [List.mapM_cons, List.mapM_cons, heq _ _ List.mem_cons_self hzx,
        ih fun z x hx => heq z x (List.mem_cons_of_mem _ hx)]

/-- A list passes if and only if each item does. -/
lemma exists_mapM_iff : (∃ ys, xs.mapM f = .ok ys) ↔ ∀ x ∈ xs, ∃ y, f x = .ok y := by
  induction xs with
  | nil => simp [pure_eq_ok]
  | cons x xs ih =>
      rw [List.forall_mem_cons, ← ih]
      simp only [List.mapM_cons, bind_eq_ok, pure_eq_ok]
      constructor
      · rintro ⟨_, y, hy, ys, hys, rfl⟩
        exact ⟨⟨y, hy⟩, ys, hys⟩
      · rintro ⟨⟨y, hy⟩, ys, hys⟩
        exact ⟨y :: ys, y, hy, ys, hys, rfl⟩

/-- A list fails as the first of its items that fails. -/
lemma mapM_eq_error {before after : List α} {x : α} {e : ε}
    (hbefore : ∀ z ∈ before, ∃ y, f z = .ok y) (hx : f x = .error e) :
    (before ++ x :: after).mapM f = .error e := by
  obtain ⟨ys, hys⟩ := exists_mapM_iff.2 hbefore
  rw [List.mapM_append, hys, List.mapM_cons, hx]
  rfl

/-- If each item passes as what it was made from, a list passes as the list of these. -/
lemma mapM_eq_ok_iff_map_eq {g : β → α} (h : ∀ x ∈ xs, ∀ y, f x = .ok y ↔ g y = x) {ys : List β} :
    xs.mapM f = .ok ys ↔ ys.map g = xs := by
  rw [mapM_eq_ok_iff]
  induction xs generalizing ys with
  | nil => simp
  | cons x xs ih =>
      rw [List.forall_mem_cons] at h
      rw [List.forall₂_cons_left_iff, List.map_eq_cons_iff]
      constructor
      · rintro ⟨y, zs, hy, hzs, rfl⟩
        exact ⟨y, zs, rfl, (h.1 y).1 hy, (ih h.2).1 hzs⟩
      · rintro ⟨y, zs, rfl, hy, hzs⟩
        exact ⟨y, zs, (h.1 y).2 hy, (ih h.2).2 hzs, rfl⟩

/-- If each item passes as its pieces do, a list passes as all pieces do, one behind the other. -/
lemma map_flatMap_mapM {p : α → List γ} {q : β → List δ} {g : γ → Except ε δ}
    (h : ∀ x ∈ xs, (f x).map q = (p x).mapM g) :
    (xs.mapM f).map (·.flatMap q) = (xs.flatMap p).mapM g := by
  induction xs with
  | nil => rfl
  | cons x xs ih =>
      rw [List.forall_mem_cons] at h
      rw [List.flatMap_cons, List.mapM_append, ← h.1, ← ih h.2, List.mapM_cons]
      cases f x with
      | error e => rfl
      | ok y =>
          cases xs.mapM f with
          | error e => rfl
          | ok ys => rfl

end Lists

/-! ### Changes of atoms -/

namespace Formula

variable {α β γ δ ε : Type}

/-- A formula over other atoms, in the same groups. -/
def map (g : β → α) : Formula β → Formula α :=
  fold .any .all fun b => .atom (g b)

section Map

variable (g : β → α)

lemma map_any (parts : List (Formula β)) : (Formula.any parts).map g = .any (parts.map (map g)) :=
  fold_any ..

lemma map_all (parts : List (Formula β)) : (Formula.all parts).map g = .all (parts.map (map g)) :=
  fold_all ..

lemma map_atom (b : β) : (Formula.atom b).map g = .atom (g b) :=
  fold_atom ..

variable {g}

lemma map_eq_any_iff {y : Formula β} {parts : List (Formula α)} :
    y.map g = .any parts ↔ ∃ ys, ys.map (map g) = parts ∧ .any ys = y := by
  cases y <;> simp [map_any, map_all, map_atom]

lemma map_eq_all_iff {y : Formula β} {parts : List (Formula α)} :
    y.map g = .all parts ↔ ∃ ys, ys.map (map g) = parts ∧ .all ys = y := by
  cases y <;> simp [map_any, map_all, map_atom]

lemma map_eq_atom_iff {y : Formula β} {a : α} :
    y.map g = .atom a ↔ ∃ b, g b = a ∧ .atom b = y := by
  cases y <;> simp [map_any, map_all, map_atom]

end Map

/-- A formula over what its atoms become, in the same groups. If an atom becomes nothing, neither
does the formula, for the reason that the first of these atoms gives. -/
def traverse (f : α → Except ε β) : Formula α → Except ε (Formula β) :=
  fold (fun parts => (parts.mapM id).map .any) (fun parts => (parts.mapM id).map .all)
    fun a => (f a).map .atom

section Traverse

variable (f : α → Except ε β)

lemma traverse_any (parts : List (Formula α)) :
    (Formula.any parts).traverse f = (parts.mapM (traverse f)).map .any := by
  rw [traverse, fold_any, List.mapM_map]
  rfl

lemma traverse_all (parts : List (Formula α)) :
    (Formula.all parts).traverse f = (parts.mapM (traverse f)).map .all := by
  rw [traverse, fold_all, List.mapM_map]
  rfl

lemma traverse_atom (a : α) : (Formula.atom a).traverse f = (f a).map .atom :=
  fold_atom ..

variable {f}

/-- If each atom passes as what it was made from, so does a formula. -/
theorem traverse_eq_ok_iff {g : β → α} (h : ∀ a b, f a = .ok b ↔ g b = a) {x : Formula α}
    {y : Formula β} : x.traverse f = .ok y ↔ y.map g = x := by
  induction x generalizing y with
  | any parts ih =>
      rw [traverse_any, map_eq_ok, map_eq_any_iff]
      simp only [mapM_eq_ok_iff_map_eq fun part hpart _ => ih part hpart]
  | all parts ih =>
      rw [traverse_all, map_eq_ok, map_eq_all_iff]
      simp only [mapM_eq_ok_iff_map_eq fun part hpart _ => ih part hpart]
  | atom a =>
      rw [traverse_atom, map_eq_ok, map_eq_atom_iff]
      simp only [h]

/-- If each atom passes as its pieces do, a formula passes as the pieces of all its atoms do, from
left to right. -/
theorem map_flatMap_traverse {p : α → List γ} {q : β → List δ} {g : γ → Except ε δ}
    (h : ∀ a, (f a).map q = (p a).mapM g) (x : Formula α) :
    (x.traverse f).map (·.atoms.flatMap q) = (x.atoms.flatMap p).mapM g := by
  induction x with
  | any parts ih =>
      rw [traverse_any, atoms_any, List.flatMap_assoc, ← map_flatMap_mapM ih]
      cases parts.mapM (traverse f) with
      | error e => rfl
      | ok ys => simp only [Except.map, atoms_any, List.flatMap_assoc]
  | all parts ih =>
      rw [traverse_all, atoms_all, List.flatMap_assoc, ← map_flatMap_mapM ih]
      cases parts.mapM (traverse f) with
      | error e => rfl
      | ok ys => simp only [Except.map, atoms_all, List.flatMap_assoc]
  | atom a =>
      rw [traverse_atom, atoms_atom, List.flatMap_singleton, ← h]
      cases f a with
      | error e => rfl
      | ok y => simp only [Except.map, atoms_atom, List.flatMap_singleton]

end Traverse

end Formula

/-! ### Ranges, relations and conditions -/

/-- The bounds of a range, in order or inverted. -/
@[ext]
structure Range.Bounds where
  low : UInt64
  high : UInt64
  deriving DecidableEq

/-- Whether the upper bound is below the lower one. -/
def Range.Bounds.isInverted (b : Bounds) : Bool :=
  b.high < b.low

/-- A relation with bounds in place of ranges. -/
structure Relation.Unchecked where
  expr : Expr
  negated : Bool
  comparison : Comparison
  bounds : List Range.Bounds
  deriving DecidableEq

/-- A condition with bounds in place of ranges. -/
abbrev Condition.Unchecked := Formula Relation.Unchecked

/-- The bounds of a range. -/
def Range.bounds (r : Range) : Bounds :=
  ⟨r.low, r.high⟩

/-- A relation as it is before its bounds are checked. -/
def Relation.unchecked (r : Relation) : Unchecked :=
  ⟨r.expr, r.negated, r.comparison, r.ranges.map Range.bounds⟩

/-- A condition as it is before its bounds are checked. -/
def Condition.unchecked (c : Condition) : Unchecked :=
  c.map Relation.unchecked

namespace Range.Bounds

/-- The range between two bounds, or the report that they are inverted. -/
def check (b : Bounds) : Except JsonError Range :=
  match ofBounds? b.low b.high with
  | some r => .ok r
  | none => .error (.inverted b.low b.high)

variable {b : Bounds}

lemma check_eq_ok_iff {r : Range} : b.check = .ok r ↔ r.bounds = b := by
  have hbounds : r.bounds = b ↔ ofBounds? b.low b.high = some r := by
    rw [ofBounds?_eq_some_iff, Bounds.ext_iff]
    rfl
  rw [hbounds, check]
  cases ofBounds? b.low b.high with
  | none => simp
  | some p => simp

lemma exists_check_iff : (∃ r, b.check = .ok r) ↔ b.low ≤ b.high := by
  simp only [check_eq_ok_iff]
  constructor
  · rintro ⟨r, rfl⟩
    exact r.low_le_high
  · exact fun h => ⟨⟨b.low, b.high, h⟩, rfl⟩

lemma isInverted_eq_false_iff : b.isInverted = false ↔ b.low ≤ b.high := by
  rw [isInverted, decide_eq_false_iff_not, UInt64.not_lt]

lemma check_eq_error (h : b.isInverted) : b.check = .error (.inverted b.low b.high) := by
  rw [isInverted, decide_eq_true_iff, ← UInt64.not_le] at h
  rw [check, ofBounds?, dif_neg h]

end Range.Bounds

namespace Relation.Unchecked

/-- The relation with these bounds, or the report of the first that are inverted. -/
def check (u : Unchecked) : Except JsonError Relation :=
  (u.bounds.mapM Range.Bounds.check).map fun ranges =>
    ⟨u.expr, u.negated, u.comparison, ranges⟩

variable {u : Unchecked}

lemma check_eq_ok_iff {r : Relation} : u.check = .ok r ↔ r.unchecked = u := by
  rw [check, map_eq_ok]
  simp only [mapM_eq_ok_iff_map_eq fun b _ r => Range.Bounds.check_eq_ok_iff]
  constructor
  · rintro ⟨ranges, hranges, rfl⟩
    rw [unchecked, hranges]
  · rintro rfl
    exact ⟨r.ranges, rfl, rfl⟩

/-- The ranges of a relation are what its bounds pass as. -/
lemma map_ranges_check (u : Unchecked) :
    u.check.map Relation.ranges = u.bounds.mapM Range.Bounds.check := by
  rw [check]
  cases u.bounds.mapM Range.Bounds.check with
  | error e => rfl
  | ok ranges => rfl

end Relation.Unchecked

namespace Condition.Unchecked

/-- The bounds of all relations, from left to right. -/
def bounds (u : Unchecked) : List Range.Bounds :=
  u.atoms.flatMap Relation.Unchecked.bounds

/-- The condition with these bounds, or the report of the first that are inverted. -/
def check (u : Unchecked) : Except JsonError Condition :=
  u.traverse Relation.Unchecked.check

variable {u : Unchecked}

/-- What passes is the condition that was written down. -/
theorem check_eq_ok_iff {c : Condition} : u.check = .ok c ↔ c.unchecked = u :=
  Formula.traverse_eq_ok_iff fun _ _ => Relation.Unchecked.check_eq_ok_iff

/-- The ranges of a condition are what its bounds pass as. -/
lemma map_ranges_check (u : Unchecked) :
    u.check.map (·.atoms.flatMap Relation.ranges) = u.bounds.mapM Range.Bounds.check :=
  Formula.map_flatMap_traverse Relation.Unchecked.map_ranges_check u

/-- The ranges of a condition that passes have the bounds that were written down. -/
lemma bounds_eq_of_check {c : Condition} (h : u.check = .ok c) :
    (c.atoms.flatMap Relation.ranges).map Range.bounds = u.bounds := by
  rw [← mapM_eq_ok_iff_map_eq fun b _ r => Range.Bounds.check_eq_ok_iff, ← map_ranges_check, h]
  rfl

/-- A condition passes if and only if all bounds are in order. -/
theorem exists_check_iff : (∃ c, u.check = .ok c) ↔ ∀ b ∈ u.bounds, b.low ≤ b.high := by
  simp only [← Range.Bounds.exists_check_iff]
  rw [← exists_mapM_iff, ← map_ranges_check, exists_map_eq_ok]

/-- A condition is refused for the first bounds that are inverted. -/
theorem check_eq_error {b : Range.Bounds} (h : u.bounds.find? Range.Bounds.isInverted = some b) :
    u.check = .error (.inverted b.low b.high) := by
  obtain ⟨hb, before, after, hu, hbefore⟩ := List.find?_eq_some_iff_append.1 h
  rw [← map_eq_error, map_ranges_check, hu]
  refine mapM_eq_error (fun x hx => ?_) (Range.Bounds.check_eq_error hb)
  rw [Range.Bounds.exists_check_iff, ← Range.Bounds.isInverted_eq_false_iff]
  simpa using hbefore x hx

end Condition.Unchecked

end PluralRules
