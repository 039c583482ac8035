import PluralRules.Proofs.Grammar.Basic

/-!
Readers of chains, against the grammar.

A chain is read item by item, so it is enough to know of one link, a mark with the item
behind it, that it is read where it stands and stands where it was read.

* `bind_eq_ok`: what a reader in steps gives back, from what its steps do.
* `exists_chain`: what was read as a chain spells one.
* `chain_eq_ok`: a text that spells a chain is read as it, if what comes behind neither adds
  to the last item nor goes on with a mark.
-/

namespace PluralRules.Reading

open Grammar Text

/-- A computation in two steps succeeds if the first one does, and the second one on what
the first gave. -/
lemma bind_eq_ok {ε α β : Type} {x : Except ε α} {f : α → Except ε β} {b : β} :
    x >>= f = .ok b ↔ ∃ a, x = .ok a ∧ f a = .ok b := by
  cases x <;> simp [bind, Except.bind]

/-- A computation in two steps fails if one of them does. -/
lemma bind_eq_error {ε α β : Type} {x : Except ε α} {f : α → Except ε β} {e : ε} :
    x >>= f = .error e ↔ x = .error e ∨ ∃ a, x = .ok a ∧ f a = .error e := by
  cases x <;> simp [bind, Except.bind]

lemma pure_eq_ok {ε α : Type} {a b : α} : (pure a : Except ε α) = .ok b ↔ a = b := by
  simp [pure, Except.pure]

lemma stop_ne_ok {α : Type} {s : List Char} {c : Complaint} {a : α} : stop s c ≠ .ok a :=
  nofun

section Chain

variable {α : Type} {mark : Mark} {item : Reader α} {isMark : List Char → Prop}
  {isItem : List Char → α → Prop}

lemma chain_eq_ok_iff {s rest : List Char} {ys : List α} :
    chain mark item s = .ok (ys, rest) ↔
      ∃ x u xs, item s = .ok (x, u) ∧ more mark item u u = .ok (xs, rest) ∧ ys = x :: xs := by
  simp only [chain, bind_eq_ok, pure_eq_ok, Prod.exists, Prod.mk.injEq]
  constructor
  · rintro ⟨x, u, hx, xs, _, hxs, rfl, rfl⟩
    exact ⟨x, u, xs, hx, hxs, rfl⟩
  · rintro ⟨x, u, xs, hx, hxs, rfl⟩
    exact ⟨x, u, hx, xs, rest, hxs, rfl, rfl⟩

/-! ### What was read stands there -/

/-- Items that were read behind the first stand there, if one link does. -/
lemma exists_links
    (link : ∀ ⦃s u x rest⦄, mark s = some u → item u = .ok (x, rest) →
      ∃ t v, isMark t ∧ isItem v x ∧ s = t ++ v ++ rest)
    {bound s rest : List Char} {xs : List α} (h : more mark item bound s = .ok (xs, rest)) :
    ∃ t, Links isMark isItem t xs ∧ s = t ++ rest := by
  induction bound generalizing s xs with
  | nil =>
      obtain ⟨rfl, rfl⟩ : [] = xs ∧ s = rest := by simpa [more] using h
      exact ⟨[], .nil, rfl⟩
  | cons _ bound ih =>
      rw [more] at h
      cases hm : mark s with
      | none =>
          obtain ⟨rfl, rfl⟩ : [] = xs ∧ s = rest := by simpa [hm] using h
          exact ⟨[], .nil, rfl⟩
      | some u =>
          simp only [hm, bind_eq_ok, pure_eq_ok, Prod.exists, Prod.mk.injEq] at h
          obtain ⟨x, w, hx, ys, _, hys, rfl, rfl⟩ := h
          obtain ⟨t, v, ht, hv, rfl⟩ := link hm hx
          obtain ⟨l, hl, rfl⟩ := ih hys
          exact ⟨_, .cons ht hv hl, by simp only [List.append_assoc]⟩

/-- What was read as a chain spells one, if the first item and one link do. What the reader of an
item passes over before it is left to a function: nothing, or blanks. -/
lemma exists_chain {f : List Char → List Char}
    (first : ∀ ⦃s x rest⦄, item s = .ok (x, rest) → ∃ t, isItem t x ∧ f s = t ++ rest)
    (link : ∀ ⦃s u x rest⦄, mark s = some u → item u = .ok (x, rest) →
      ∃ t v, isMark t ∧ isItem v x ∧ s = t ++ v ++ rest)
    {s rest : List Char} {xs : List α} (h : chain mark item s = .ok (xs, rest)) :
    ∃ t, Chain isMark isItem t xs ∧ f s = t ++ rest := by
  obtain ⟨x, u, ys, hx, hys, rfl⟩ := chain_eq_ok_iff.1 h
  obtain ⟨t, ht, hs⟩ := first hx
  obtain ⟨l, hl, rfl⟩ := exists_links link hys
  exact ⟨t ++ l, .intro ht hl, by rw [hs, List.append_assoc]⟩

/-! ### What stands there is read -/

variable {ends : List Char → Prop}

/-- Behind an item comes a mark, or what comes behind all items. -/
lemma ends_links_append (apart : ∀ ⦃t rest⦄, isMark t → ends (t ++ rest)) {t rest : List Char}
    {xs : List α} (h : Links isMark isItem t xs) (hrest : ends rest) : ends (t ++ rest) := by
  cases h with
  | nil => exact hrest
  | cons hm _ _ =>
      rw [List.append_assoc, List.append_assoc]
      exact apart hm

/-- Items behind the first are read where they stand. Each mark is a character at least, so the
bound on their number is not reached. -/
lemma more_eq_ok (nonempty : ∀ ⦃t⦄, isMark t → t ≠ [])
    (apart : ∀ ⦃t rest⦄, isMark t → ends (t ++ rest))
    (link : ∀ ⦃t v x rest⦄, isMark t → isItem v x → ends rest →
      ∃ u, mark (t ++ (v ++ rest)) = some u ∧ item u = .ok (x, rest))
    {t rest bound : List Char} {xs : List α} (h : Links isMark isItem t xs) (hrest : ends rest)
    (hstop : mark rest = none) (hbound : t.length ≤ bound.length) :
    more mark item bound (t ++ rest) = .ok (xs, rest) := by
  induction h generalizing bound with
  | nil => cases bound <;> simp [more, hstop]
  | @cons s v l x xs hm hi hl ih =>
      have hs := List.length_pos_iff.2 (nonempty hm)
      simp only [List.length_append] at hbound
      cases bound with
      | nil => simp only [List.length_nil] at hbound; omega
      | cons c bound =>
          obtain ⟨u, hu, hx⟩ := link hm hi (ends_links_append apart hl hrest)
          have hlength : l.length ≤ bound.length := by
            simp only [List.length_cons] at hbound
            omega
          have hxs := ih hlength
          rw [more, List.append_assoc, List.append_assoc, hu]
          simp only [bind_eq_ok, pure_eq_ok, Prod.exists, Prod.mk.injEq]
          exact ⟨x, _, hx, xs, _, hxs, rfl, rfl⟩

/-- A text that spells a chain is read as it, behind what the reader of an item passes over. -/
lemma chain_eq_ok {b : List Char} (nonempty : ∀ ⦃t⦄, isMark t → t ≠ [])
    (apart : ∀ ⦃t rest⦄, isMark t → ends (t ++ rest))
    (first : ∀ ⦃v x rest⦄, isItem v x → ends rest → item (b ++ (v ++ rest)) = .ok (x, rest))
    (link : ∀ ⦃t v x rest⦄, isMark t → isItem v x → ends rest →
      ∃ u, mark (t ++ (v ++ rest)) = some u ∧ item u = .ok (x, rest))
    {t rest : List Char} {xs : List α} (h : Chain isMark isItem t xs) (hrest : ends rest)
    (hstop : mark rest = none) : chain mark item (b ++ (t ++ rest)) = .ok (xs, rest) := by
  obtain ⟨hx, hl⟩ := h
  rw [List.append_assoc]
  exact chain_eq_ok_iff.2 ⟨_, _, _, first hx (ends_links_append apart hl hrest),
    more_eq_ok nonempty apart link hl hrest hstop (by simp), rfl⟩

/-! ### Chains with a word between the items -/

variable {word : String}

/-- What was read as a chain with a word between the items spells one, if each item starts with
a letter or digit behind blanks. -/
lemma exists_connective_chain
    (starts : ∀ ⦃t x⦄ rest, isItem t x → startsAlphanumeric (t ++ rest) = true)
    (first : ∀ ⦃s x rest⦄, item s = .ok (x, rest) → ∃ t, isItem t x ∧ dropBlanks s = t ++ rest)
    {s rest : List Char} {xs : List α} (h : chain (connective? word) item s = .ok (xs, rest)) :
    ∃ t, Chain (Connective word) isItem t xs ∧ dropBlanks s = t ++ rest := by
  refine exists_chain first ?_ h
  intro s u x rest hm hx
  obtain ⟨v, hv, hu⟩ := first hx
  have hletter : startsAlphanumeric (dropBlanks u) = true := by
    rw [hu]
    exact starts rest hv
  obtain ⟨t, ht, hs⟩ := exists_connective hm hletter
  exact ⟨t, v, ht, hv, by rw [hs, hu, List.append_assoc]⟩

/-- A text that spells a chain with a word between the items is read as it, if an item is read
behind any blanks. -/
lemma connective_chain_eq_ok {d : Char} {next : List Char} (hword : word.toList.head? = some d)
    (hd : isBlank d = false) (hmem : d ∈ next)
    (first : ∀ ⦃b v x rest⦄, isItem v x → Blanks b → Follows next rest →
      item (b ++ (v ++ rest)) = .ok (x, rest))
    {b t rest : List Char} {xs : List α} (hb : Blanks b) (h : Chain (Connective word) isItem t xs)
    (hrest : Follows (next.erase d) rest) (hnodup : next.Nodup) :
    chain (connective? word) item (b ++ (t ++ rest)) = .ok (xs, rest) := by
  refine chain_eq_ok (fun _ h => h.ne_nil) (fun _ _ h => h.follows hword hd hmem _)
    (fun _ _ _ hx hend => first hx hb hend) ?_ h (hrest.mono fun c => List.mem_of_mem_erase)
    (connective?_eq_none hword hrest hnodup.not_mem_erase)
  intro t v x rest hm hx hrest
  obtain ⟨c, hc, hfound⟩ := connective?_append hword hd hm (v ++ rest)
  exact ⟨_, hfound, first hx hc.blanks hrest⟩

end Chain

end PluralRules.Reading
