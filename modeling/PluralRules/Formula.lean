/-!
And/or trees.

A formula is an atom, a disjunction or a conjunction of any number of formulas.
Whatever is computed from one is computed from what its parts give, so most
functions on formulas are instances of `Formula.fold`.

* `Formula.induction`: induction over formulas.
* `Formula.holds`: the truth value, given that of each atom.
* `Formula.atoms`, `Formula.count`: the atoms from left to right, and how many they are.
* `Formula.lower`: a change of atoms that leaves no group of one part.
* `Formula.alternatives`: the disjunctive form.
* `Formula.and`, `Formula.or`: conjunction and disjunction, with groups of one
  kind merged and a conjunction distributed over the disjunctions it meets.
-/

namespace PluralRules

universe u v

/-- A formula over atoms of a given type. -/
inductive Formula (α : Type u) where
  /-- Some part holds. -/
  | any (parts : List (Formula α))
  /-- Every part holds. -/
  | all (parts : List (Formula α))
  | atom (a : α)

namespace Formula

variable {α : Type u} {β : Type v}

/-- Induction over formulas: it is enough to look at atoms, and at groups whose
parts all have the property. -/
@[elab_as_elim, induction_eliminator]
theorem induction {P : Formula α → Prop}
    (any : ∀ parts : List (Formula α), (∀ part ∈ parts, P part) → P (.any parts))
    (all : ∀ parts : List (Formula α), (∀ part ∈ parts, P part) → P (.all parts))
    (atom : ∀ a, P (.atom a)) (x : Formula α) : P x := by
  refine Formula.rec (motive_2 := fun parts => ∀ part ∈ parts, P part)
    any all atom ?_ ?_ x
  · intro part h
    cases h
  · intro first rest hfirst hrest part h
    cases h with
    | head => exact hfirst
    | tail _ h => exact hrest part h

mutual

/-- Equality of formulas is decided part by part. -/
def decEq [DecidableEq α] : (x y : Formula α) → Decidable (x = y)
  | .any xs, .any ys =>
      match decEqEach xs ys with
      | isTrue h => isTrue (h ▸ rfl)
      | isFalse h => isFalse fun e => h (Formula.any.inj e)
  | .all xs, .all ys =>
      match decEqEach xs ys with
      | isTrue h => isTrue (h ▸ rfl)
      | isFalse h => isFalse fun e => h (Formula.all.inj e)
  | .atom a, .atom b =>
      if h : a = b then isTrue (h ▸ rfl) else isFalse fun e => h (Formula.atom.inj e)
  | .any _, .all _ => isFalse nofun
  | .any _, .atom _ => isFalse nofun
  | .all _, .any _ => isFalse nofun
  | .all _, .atom _ => isFalse nofun
  | .atom _, .any _ => isFalse nofun
  | .atom _, .all _ => isFalse nofun

/-- Equality of two lists of parts. -/
def decEqEach [DecidableEq α] : (xs ys : List (Formula α)) → Decidable (xs = ys)
  | [], [] => isTrue rfl
  | [], _ :: _ => isFalse nofun
  | _ :: _, [] => isFalse nofun
  | x :: xs, y :: ys =>
      match decEq x y, decEqEach xs ys with
      | isTrue h, isTrue hs => isTrue (h ▸ hs ▸ rfl)
      | isFalse h, _ => isFalse fun e => h (List.cons.inj e).1
      | _, isFalse hs => isFalse fun e => hs (List.cons.inj e).2

end

instance [DecidableEq α] : DecidableEq (Formula α) :=
  decEq

/-! ### Folding -/

mutual

/-- What a formula gives, from what its parts give. -/
def fold (any all : List β → β) (atom : α → β) : Formula α → β
  | .any parts => any (foldEach any all atom parts)
  | .all parts => all (foldEach any all atom parts)
  | .atom a => atom a

/-- What each part gives. -/
def foldEach (any all : List β → β) (atom : α → β) : List (Formula α) → List β
  | [] => []
  | x :: xs => fold any all atom x :: foldEach any all atom xs

end

section Fold

variable (any all : List β → β) (atom : α → β)

theorem foldEach_eq_map (xs : List (Formula α)) :
    foldEach any all atom xs = xs.map (fold any all atom) := by
  induction xs with
  | nil => rfl
  | cons x xs ih => rw [foldEach, ih, List.map_cons]

theorem fold_any (parts : List (Formula α)) :
    fold any all atom (.any parts) = any (parts.map (fold any all atom)) := by
  rw [fold, foldEach_eq_map]

theorem fold_all (parts : List (Formula α)) :
    fold any all atom (.all parts) = all (parts.map (fold any all atom)) := by
  rw [fold, foldEach_eq_map]

theorem fold_atom (a : α) : fold any all atom (.atom a) = atom a := by
  rw [fold]

end Fold

/-- The truth value of a formula, given that of each atom. -/
def holds (p : α → Bool) : Formula α → Bool :=
  fold (·.any id) (·.all id) p

@[simp]
theorem holds_any (p : α → Bool) (parts : List (Formula α)) :
    (Formula.any parts).holds p = parts.any (·.holds p) := by
  rw [holds, fold_any, List.any_map]
  rfl

@[simp]
theorem holds_all (p : α → Bool) (parts : List (Formula α)) :
    (Formula.all parts).holds p = parts.all (·.holds p) := by
  rw [holds, fold_all, List.all_map]
  rfl

@[simp]
theorem holds_atom (p : α → Bool) (a : α) : (Formula.atom a).holds p = p a :=
  fold_atom ..

/-- The atoms of a formula from left to right. -/
def atoms : Formula α → List α :=
  fold List.flatten List.flatten fun a => [a]

@[simp]
theorem atoms_any (parts : List (Formula α)) :
    (Formula.any parts).atoms = parts.flatMap atoms :=
  fold_any ..

@[simp]
theorem atoms_all (parts : List (Formula α)) :
    (Formula.all parts).atoms = parts.flatMap atoms :=
  fold_all ..

@[simp]
theorem atoms_atom (a : α) : (Formula.atom a).atoms = [a] :=
  fold_atom ..

/-- How many atoms a formula has. -/
def count : Formula α → Nat :=
  fold (List.foldr (· + ·) 0) (List.foldr (· + ·) 0) fun _ => 1

@[simp]
theorem count_any (parts : List (Formula α)) :
    (Formula.any parts).count = (parts.map count).foldr (· + ·) 0 :=
  fold_any ..

@[simp]
theorem count_all (parts : List (Formula α)) :
    (Formula.all parts).count = (parts.map count).foldr (· + ·) 0 :=
  fold_all ..

@[simp]
theorem count_atom (a : α) : (Formula.atom a).count = 1 :=
  fold_atom ..

/-! ### Groups of one part -/

/-- A group of the given kind, or its only part. -/
def group (kind : List (Formula α) → Formula α) : List (Formula α) → Formula α
  | [x] => x
  | parts => kind parts

/-- A formula over other atoms, without a group of one part. -/
def lower (f : α → β) : Formula α → Formula β :=
  fold (group .any) (group .all) fun a => .atom (f a)

theorem lower_any (f : α → β) (parts : List (Formula α)) :
    (Formula.any parts).lower f = group .any (parts.map (lower f)) :=
  fold_any ..

theorem lower_all (f : α → β) (parts : List (Formula α)) :
    (Formula.all parts).lower f = group .all (parts.map (lower f)) :=
  fold_all ..

theorem lower_atom (f : α → β) (a : α) : (Formula.atom a).lower f = .atom (f a) :=
  fold_atom ..

/-! ### Disjunctive form -/

/-- Every way to take one list from each, put together in order. The choice from
an earlier list changes more slowly. Nothing is put together once a list offers
no choice. -/
def products : List (List (List β)) → List (List β)
  | [] => [[]]
  | [] :: _ => []
  | choices :: rest =>
      let tails := products rest
      choices.flatMap fun x => tails.map (x ++ ·)

@[simp]
theorem products_nil : products ([] : List (List (List β))) = [[]] := by
  rw [products]

/-- Each way is a choice from the first list and a way to choose from the rest. -/
theorem products_cons (choices : List (List β)) (rest : List (List (List β))) :
    products (choices :: rest) =
      choices.flatMap fun x => (products rest).map (x ++ ·) := by
  cases choices with
  | nil => rw [products, List.flatMap_nil]
  | cons x xs =>
      rw [products]
      exact List.cons_ne_nil x xs

/-- The alternatives of a formula, each a list of what must hold together,
given those of each atom. -/
def alternatives (atom : α → List (List β)) : Formula α → List (List β) :=
  fold List.flatten products atom

theorem alternatives_any (atom : α → List (List β)) (parts : List (Formula α)) :
    (Formula.any parts).alternatives atom = parts.flatMap (alternatives atom) :=
  fold_any ..

theorem alternatives_all (atom : α → List (List β)) (parts : List (Formula α)) :
    (Formula.all parts).alternatives atom =
      products (parts.map (alternatives atom)) :=
  fold_all ..

theorem alternatives_atom (atom : α → List (List β)) (a : α) :
    (Formula.atom a).alternatives atom = atom a :=
  fold_atom ..

/-! ### Conjunction and disjunction -/

/-- The formula that always holds. -/
def always : Formula α :=
  .all []

/-- The parts of a conjunction; anything else is its own only part. -/
def conjuncts : Formula α → List (Formula α)
  | .all parts => parts
  | x => [x]

/-- The parts of a disjunction; anything else is its own only part. -/
def disjuncts : Formula α → List (Formula α)
  | .any parts => parts
  | x => [x]

mutual

/-- Changes what a formula offers to choose from: the formula itself, or each
part of a disjunction in the same way. -/
def mapChoices (f : Formula α → Formula α) : Formula α → Formula α
  | .any parts => .any (mapChoicesEach f parts)
  | .all parts => f (.all parts)
  | .atom a => f (.atom a)

/-- The same for each of several formulas. -/
def mapChoicesEach (f : Formula α → Formula α) :
    List (Formula α) → List (Formula α)
  | [] => []
  | x :: xs => mapChoices f x :: mapChoicesEach f xs

end

theorem mapChoicesEach_eq_map (f : Formula α → Formula α) (xs : List (Formula α)) :
    mapChoicesEach f xs = xs.map (mapChoices f) := by
  induction xs with
  | nil => rfl
  | cons x xs ih => rw [mapChoicesEach, ih, List.map_cons]

theorem mapChoices_any (f : Formula α → Formula α) (parts : List (Formula α)) :
    mapChoices f (.any parts) = .any (parts.map (mapChoices f)) := by
  rw [mapChoices, mapChoicesEach_eq_map]

/-- The conjunction of two formulas. Where one is a disjunction, each of its
parts is joined with the other, the first formula's choice outermost. -/
def and (x y : Formula α) : Formula α :=
  x.mapChoices fun a => y.mapChoices fun b => group .all (a.conjuncts ++ b.conjuncts)

/-- The disjunction of two formulas. -/
def or (x y : Formula α) : Formula α :=
  group .any (x.disjuncts ++ y.disjuncts)

end Formula

end PluralRules
