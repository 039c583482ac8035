import Mathlib.Data.List.DropRight
import Mathlib.Tactic
import PluralRules.Reading.Basic

/-!
Pieces of the grammar of rules.

The grammar says which texts spell which values, and it says so without reading them: each
piece of it is a set of texts, or a relation between texts and values. Three pieces stand in
many places, and here is what the marks of the readers make of them.

* `Text.Blanks`, `Text.Gap`: a run of blanks, the second one not empty.
* `Grammar.Around`, `Grammar.Connective`: a word with blanks around it, which the second one
  demands. `between?_append`, `connective?_append` find the words where they stand, and
  `exists_around`, `exists_connective` say that a word that was found stands there.
* `Grammar.Links`, `Grammar.Chain`: items with a mark between any two.
* `Text.Follows`: which characters a text can go on with behind blanks. This is how far a
  piece has to be kept apart from the next one; `between?_eq_none` and `connective?_eq_none`
  rule a mark out by it.
-/

namespace PluralRules

/-! ### Blanks -/

namespace Text

/-- A run of blanks, perhaps empty. -/
def Blanks (s : List Char) : Prop :=
  ∀ c ∈ s, isBlank c

/-- A run of blanks that is not empty. -/
structure Gap (s : List Char) : Prop where
  blanks : Blanks s
  ne_nil : s ≠ []

lemma Blanks.nil : Blanks [] := by
  simp [Blanks]

lemma Gap.space : Gap [' '] :=
  ⟨by simp [Blanks, isBlank], by simp⟩

lemma dropBlanks_append {b : List Char} (hb : Blanks b) (s : List Char) :
    dropBlanks (b ++ s) = dropBlanks s :=
  List.dropWhile_append_of_pos hb

lemma dropBlanks_cons {c : Char} (hc : isBlank c = false) (s : List Char) :
    dropBlanks (c :: s) = c :: s :=
  List.dropWhile_cons_of_neg (by simp [hc])

lemma dropBlanks_dropBlanks (s : List Char) : dropBlanks (dropBlanks s) = dropBlanks s :=
  List.dropWhile_idempotent _ _

/-- A text is the blanks it starts with and what is left without them. -/
lemma exists_blanks (s : List Char) : ∃ b, Blanks b ∧ s = b ++ dropBlanks s :=
  ⟨s.takeWhile isBlank, fun _ h => List.all_eq_true.1 List.all_takeWhile _ h,
    List.takeWhile_append_dropWhile.symm⟩

lemma eq_of_isBlank {c : Char} (h : isBlank c = true) :
    c = ' ' ∨ c = '\t' ∨ c = '\r' ∨ c = '\n' := by
  simpa only [isBlank, Bool.or_eq_true, decide_eq_true_eq, or_assoc] using h

lemma isBlank_eq_false_of_isAlphanum {c : Char} (hc : c.isAlphanum) : isBlank c = false := by
  by_contra h
  rw [Bool.not_eq_false] at h
  rcases eq_of_isBlank h with rfl | rfl | rfl | rfl <;> exact absurd hc (by decide)

/-! ### What a text goes on with -/

/-- Behind blanks, a text is at its end or goes on with one of some characters. -/
def Follows (next : List Char) (s : List Char) : Prop :=
  ∀ c ∈ (dropBlanks s).head?, c ∈ next

namespace Follows

variable {next : List Char}

lemma nil : Follows next [] := by
  simp [Follows, dropBlanks]

lemma cons {c : Char} (hb : isBlank c = false) (hc : c ∈ next) (s : List Char) :
    Follows next (c :: s) := by
  simpa [Follows, dropBlanks_cons hb] using hc

lemma blanks_append {b s : List Char} (hb : Blanks b) (h : Follows next s) :
    Follows next (b ++ s) := by
  rwa [Follows, dropBlanks_append hb]

lemma word {w : String} {d : Char} (hw : w.toList.head? = some d) (hd : isBlank d = false)
    (hmem : d ∈ next) (s : List Char) : Follows next (w.toList ++ s) := by
  obtain ⟨cs, h⟩ := List.head?_eq_some_iff.1 hw
  rw [h]
  exact cons hd hmem _

lemma mono {wide s : List Char} (h : Follows next s) (hw : next ⊆ wide) :
    Follows wide s :=
  fun c hc => hw (h c hc)

/-- The first character of a text is a blank or one of those that may follow. -/
lemma head {s : List Char} (h : Follows next s) {c : Char} (hc : c ∈ s.head?) :
    isBlank c ∨ c ∈ next := by
  cases s with
  | nil => simp at hc
  | cons d s =>
      obtain rfl : d = c := by simpa using hc
      cases hd : isBlank d with
      | true => exact .inl rfl
      | false => exact .inr (h d (by simp [dropBlanks_cons hd]))

end Follows

end Text

namespace Reading

open Text

/-! ### Words where they stand -/

section Words

variable {word : String} {s : List Char}

lemma literal?_append (word : String) (s : List Char) :
    literal? word (word.toList ++ s) = some s :=
  literal?_eq_some_iff.2 rfl

lemma keyword?_append (h : startsAlphanumeric s = false) :
    keyword? word (word.toList ++ s) = some s :=
  keyword?_eq_some_iff.2 ⟨rfl, h⟩

/-- A word is not found where the text goes on with another character. -/
lemma literal?_eq_none {d : Char} (hword : word.toList.head? = some d)
    (h : d ∉ s.head?) : literal? word s = none := by
  rw [Option.eq_none_iff_forall_ne_some]
  intro rest hrest
  rw [literal?_eq_some_iff.1 hrest, List.head?_append, hword] at h
  exact h rfl

lemma keyword?_eq_none {d : Char} (hword : word.toList.head? = some d)
    (h : d ∉ s.head?) : keyword? word s = none := by
  rw [keyword?, literal?_eq_none hword h]

lemma startsAlphanumeric_gap {b : List Char} (hb : Gap b) (s : List Char) :
    startsAlphanumeric (b ++ s) = false := by
  cases b with
  | nil => exact absurd rfl hb.ne_nil
  | cons c b =>
      by_contra h
      have hc : c.isAlphanum := by simpa [startsAlphanumeric] using h
      have := hb.blanks c (by simp)
      simp [isBlank_eq_false_of_isAlphanum hc] at this

/-- A letter or digit that does not stand at the front of a text stands behind a gap. -/
lemma exists_gap (hs : startsAlphanumeric s = false)
    (hd : startsAlphanumeric (dropBlanks s) = true) :
    ∃ b, Gap b ∧ s = b ++ dropBlanks s := by
  obtain ⟨b, hb, hsplit⟩ := exists_blanks s
  refine ⟨b, ⟨hb, ?_⟩, hsplit⟩
  rintro rfl
  rw [List.nil_append] at hsplit
  rw [← hsplit, hs] at hd
  exact Bool.false_ne_true hd

/-- A text that starts with a blank starts with a gap. -/
lemma exists_gap_of_isBlank (hs : s.head?.any isBlank = true) :
    ∃ b, Gap b ∧ s = b ++ dropBlanks s := by
  obtain ⟨b, hb, hsplit⟩ := exists_blanks s
  refine ⟨b, ⟨hb, ?_⟩, hsplit⟩
  rintro rfl
  obtain ⟨c, hc, hblank⟩ := (Option.any_eq_true _ _).1 hs
  have hhead := head?_dropBlanks s
  rw [← List.nil_append (dropBlanks s), ← hsplit, hc, Option.all_some, hblank] at hhead
  exact Bool.false_ne_true hhead

lemma startsAlphanumeric_append (h : s ≠ []) (t : List Char) :
    startsAlphanumeric (s ++ t) = startsAlphanumeric s := by
  cases s with
  | nil => exact absurd rfl h
  | cons c s => rfl

lemma startsAlphanumeric_of_front (h : startsAlphanumeric s = true) (t : List Char) :
    startsAlphanumeric (s ++ t) = true := by
  cases s with
  | nil => exact absurd h Bool.false_ne_true
  | cons c s => exact h

lemma dropBlanks_eq_self (h : startsAlphanumeric s = true) : dropBlanks s = s := by
  cases s with
  | nil => rfl
  | cons c s => exact dropBlanks_cons (isBlank_eq_false_of_isAlphanum h) s

end Words

end Reading

namespace Grammar

open Text Reading

/-! ### Words between items -/

/-- A word with blanks around it, or without. -/
inductive Around (word : String) : List Char → Prop where
  | intro {b c : List Char} (before : Blanks b) (after : Blanks c) :
      Around word (b ++ word.toList ++ c)

/-- A word with blanks around it. -/
inductive Connective (word : String) : List Char → Prop where
  | intro {b c : List Char} (before : Gap b) (after : Gap c) :
      Connective word (b ++ word.toList ++ c)

section Words

variable {word : String} {d : Char} {next s t u : List Char}

/-- A text that starts with something else than blanks. -/
lemma dropBlanks_word_append (hword : word.toList.head? = some d) (hd : isBlank d = false)
    (s : List Char) : dropBlanks (word.toList ++ s) = word.toList ++ s := by
  obtain ⟨w, h⟩ := List.head?_eq_some_iff.1 hword
  rw [h]
  exact dropBlanks_cons hd _

lemma Around.ne_nil (h : Around word t) (hword : word.toList ≠ []) : t ≠ [] := by
  obtain ⟨-, -⟩ := h
  simp [hword]

lemma Around.follows (h : Around word t) (hword : word.toList.head? = some d)
    (hd : isBlank d = false) (hmem : d ∈ next) (s : List Char) : Follows next (t ++ s) := by
  obtain ⟨hb, -⟩ := h
  rw [List.append_assoc, List.append_assoc]
  exact .blanks_append hb (.word hword hd hmem _)

lemma between?_append (hword : word.toList.head? = some d) (hd : isBlank d = false)
    (h : Around word t) (hs : dropBlanks s = s) :
    between? (literal? word) (t ++ s) = some s := by
  obtain ⟨hb, hc⟩ := h
  rw [between?, List.append_assoc, List.append_assoc, dropBlanks_append hb,
    dropBlanks_word_append hword hd, literal?_append, Option.map_some, dropBlanks_append hc, hs]

lemma between?_eq_none (hword : word.toList.head? = some d) (hs : Follows next s)
    (hd : d ∉ next) : between? (literal? word) s = none := by
  rw [between?, literal?_eq_none hword fun h => hd (hs d h), Option.map_none]

/-- A word that was found stands there with blanks around it. -/
lemma exists_around (h : between? (literal? word) s = some u) :
    ∃ t, Around word t ∧ s = t ++ u ∧ dropBlanks u = u := by
  obtain ⟨v, hv, rfl⟩ := Option.map_eq_some_iff.1 h
  obtain ⟨b, hb, hs⟩ := exists_blanks s
  obtain ⟨c, hc, hv'⟩ := exists_blanks v
  refine ⟨_, .intro hb hc, ?_, ?_⟩
  · rw [List.append_assoc, ← hv', List.append_assoc, ← literal?_eq_some_iff.1 hv, ← hs]
  · exact dropBlanks_dropBlanks v

lemma Connective.ne_nil (h : Connective word t) : t ≠ [] := by
  obtain ⟨hb, -⟩ := h
  simp [hb.ne_nil]

lemma Connective.follows (h : Connective word t) (hword : word.toList.head? = some d)
    (hd : isBlank d = false) (hmem : d ∈ next) (s : List Char) : Follows next (t ++ s) := by
  obtain ⟨hb, -⟩ := h
  rw [List.append_assoc, List.append_assoc]
  exact .blanks_append hb.blanks (.word hword hd hmem _)

lemma connective?_append (hword : word.toList.head? = some d) (hd : isBlank d = false)
    (h : Connective word t) (s : List Char) :
    ∃ c, Gap c ∧ connective? word (t ++ s) = some (c ++ s) := by
  obtain ⟨hb, hc⟩ := h
  rename_i b c
  refine ⟨c, hc, ?_⟩
  cases b with
  | nil => exact absurd rfl hb.ne_nil
  | cons a b =>
      have ha : isBlank a = true := hb.blanks a (by simp)
      rw [connective?, if_pos (by simp [ha]), List.append_assoc, List.append_assoc,
        dropBlanks_append hb.blanks, dropBlanks_word_append hword hd,
        keyword?_append (startsAlphanumeric_gap hc s)]

lemma connective?_eq_none (hword : word.toList.head? = some d) (hs : Follows next s)
    (hd : d ∉ next) : connective? word s = none := by
  rw [connective?, keyword?_eq_none hword fun h => hd (hs d h), ite_self]

/-- A connective that was found stands there, if a letter or digit comes behind it. -/
lemma exists_connective (h : connective? word s = some u)
    (hu : startsAlphanumeric (dropBlanks u) = true) :
    ∃ t, Connective word t ∧ s = t ++ dropBlanks u := by
  rw [connective?] at h
  split at h
  · rename_i hblank
    obtain ⟨hs, hend⟩ := keyword?_eq_some_iff.1 h
    obtain ⟨b, hb, hsplit⟩ := exists_gap_of_isBlank hblank
    obtain ⟨c, hc, hsplit'⟩ := exists_gap hend hu
    refine ⟨_, .intro hb hc, ?_⟩
    rw [List.append_assoc, ← hsplit', List.append_assoc, ← hs, ← hsplit]
  · exact absurd h (by simp)

end Words

/-! ### Chains -/

section Chain

variable {α : Type}

/-- The items that follow the first, each with a mark before it. -/
inductive Links (mark : List Char → Prop) (item : List Char → α → Prop) :
    List Char → List α → Prop where
  | nil : Links mark item [] []
  | cons {s t u : List Char} {x : α} {xs : List α} (first : mark s) (second : item t x)
      (rest : Links mark item u xs) : Links mark item (s ++ t ++ u) (x :: xs)

/-- One or more items, with a mark between any two. -/
inductive Chain (mark : List Char → Prop) (item : List Char → α → Prop) :
    List Char → List α → Prop where
  | intro {s t : List Char} {x : α} {xs : List α} (first : item s x)
      (rest : Links mark item t xs) : Chain mark item (s ++ t) (x :: xs)

variable {mark : List Char → Prop} {item : List Char → α → Prop} {s : List Char} {xs : List α}

lemma Links.exists_item (h : Links mark item s xs) : ∀ x ∈ xs, ∃ t, item t x := by
  induction h with
  | nil => exact nofun
  | cons _ hitem _ ih => exact List.forall_mem_cons.2 ⟨⟨_, hitem⟩, ih⟩

/-- What a chain spells is spelled item by item. -/
lemma Chain.exists_item (h : Chain mark item s xs) : ∀ x ∈ xs, ∃ t, item t x := by
  obtain ⟨hitem, hrest⟩ := h
  exact List.forall_mem_cons.2 ⟨⟨_, hitem⟩, hrest.exists_item⟩

lemma Chain.ne_nil (h : Chain mark item s xs) : xs ≠ [] := by
  obtain ⟨-, -⟩ := h
  exact List.cons_ne_nil _ _

lemma chain_singleton_iff {x : α} : Chain mark item s [x] ↔ item s x := by
  constructor
  · rintro ⟨hitem, ⟨⟩⟩
    rwa [List.append_nil]
  · intro hitem
    rw [← List.append_nil s]
    exact .intro hitem .nil

end Chain

end Grammar

end PluralRules
