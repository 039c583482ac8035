import PluralRules.Proofs.Grammar.Language
import PluralRules.Proofs.Reading.Rule

/-!
Readers and languages.

A reader takes a text from the front of what it is given, up to a rest or up to a fault. It obeys a
language if a text in front of a rest is one of the language, and a text in front of a fault can be
extended to one.

* `Grammar.prefixes`: the texts that can be extended to one of a language.
* `Reading.Leaves`, `Reading.Obeys`: what is left behind a text of a language, and what a reader
  makes of that.
* `Obeys.behind`, `Obeys.bind`: readers one behind the other.
* `Obeys.gap`, `Obeys.connective`, `Obeys.negation`: words that have to be kept apart from what comes
  next.
* `Obeys.chain`: chains of items.
-/

namespace PluralRules

open Text
open scoped Computability

/-! ### Prefixes -/

namespace Grammar

/-- The texts that can be extended to one of a language. -/
def prefixes (l : Language Char) : Language Char :=
  {s | ∃ t, s ++ t ∈ l}

variable {l l' m : Language Char}

lemma le_prefixes : l ≤ prefixes l :=
  fun s hs => ⟨[], by rwa [List.append_nil]⟩

lemma prefixes_mono (h : l ≤ l') : prefixes l ≤ prefixes l' :=
  fun _ ⟨t, ht⟩ => ⟨t, h ht⟩

lemma mul_prefixes_le : l * prefixes m ≤ prefixes (l * m) := by
  rintro _ ⟨s, hs, t, ⟨u, hu⟩, rfl⟩
  refine ⟨u, ?_⟩
  rw [List.append_assoc]
  exact Language.append_mem_mul hs hu

/-- Behind a text of one language, any text of another one is a way to go on. -/
lemma prefixes_le_mul (hm : ∃ t, t ∈ m) : prefixes l ≤ prefixes (l * m) := by
  rintro s ⟨t, ht⟩
  obtain ⟨u, hu⟩ := hm
  refine ⟨t ++ u, ?_⟩
  rw [← List.append_assoc]
  exact Language.append_mem_mul ht hu

end Grammar

/-! ### Readers that obey a language -/

namespace Reading

open Grammar (prefixes le_prefixes prefixes_mono mul_prefixes_le prefixes_le_mul word blanks gap
  around connective negation items)

/-- A text is one of a language, followed by a rest. -/
def Leaves (l : Language Char) (s rest : List Char) : Prop :=
  ∃ t ∈ l, t ++ rest = s

/-- What was read from a text is one of a language, and what stands in front of a fault can be
extended to one. -/
structure Obeys {α : Type} (l : Language Char) (s : List Char)
    (r : Except Fault (α × List Char)) : Prop where
  leaves : ∀ {x rest}, r = .ok (x, rest) → Leaves l s rest
  stops : ∀ {f}, r = .error f → Leaves (prefixes l) s f.remaining

/-- The texts of a language start with a letter or digit. -/
def StartsWord (l : Language Char) : Prop :=
  ∀ t ∈ l, startsAlphanumeric t = true

lemma StartsWord.mul {l m : Language Char} (hl : StartsWord l) : StartsWord (l * m) := by
  rintro _ ⟨t, ht, u, -, rfl⟩
  exact startsAlphanumeric_of_front (hl t ht) u

lemma StartsWord.negation {l : Language Char} (hl : StartsWord l) : StartsWord (negation * l) := by
  rintro _ ⟨_, rfl | ⟨_, rfl, b, -, rfl⟩, t, ht, rfl⟩
  · exact hl t ht
  · rfl

section Leaves

variable {l l' m : Language Char} {s u rest : List Char} {w : String}

lemma Leaves.mono (h : Leaves l s rest) (hl : l ≤ l') : Leaves l' s rest := by
  obtain ⟨t, ht, hs⟩ := h
  exact ⟨t, hl ht, hs⟩

lemma Leaves.mul (h : Leaves l s u) (h' : Leaves m u rest) : Leaves (l * m) s rest := by
  obtain ⟨t, ht, rfl⟩ := h
  obtain ⟨v, hv, rfl⟩ := h'
  exact ⟨t ++ v, Language.append_mem_mul ht hv, List.append_assoc t v rest⟩

/-- Behind a text of a language, a fault of what has to come next. -/
lemma Leaves.mul_prefixes (h : Leaves l s u) (h' : Leaves (prefixes m) u rest) :
    Leaves (prefixes (l * m)) s rest :=
  (h.mul h').mono mul_prefixes_le

/-- A fault, with a text that could come behind what is missing there. -/
lemma Leaves.prefixes_mul (h : Leaves (prefixes l) s rest) (hm : ∃ t, t ∈ m) :
    Leaves (prefixes (l * m)) s rest :=
  h.mono (prefixes_le_mul hm)

lemma Leaves.nil (h : [] ∈ l) (s : List Char) : Leaves l s s :=
  ⟨[], h, rfl⟩

/-- Any language can still be obeyed at the start of a text. -/
lemma Leaves.start (hl : ∃ t, t ∈ l) (s : List Char) : Leaves (prefixes l) s s :=
  .nil hl s

lemma Leaves.blanks (s : List Char) : Leaves blanks s (dropBlanks s) := by
  obtain ⟨b, hb, hs⟩ := exists_blanks s
  exact ⟨b, hb, hs.symm⟩

lemma Leaves.literal (h : literal? w s = some rest) : Leaves (word w) s rest :=
  ⟨w.toList, rfl, (literal?_eq_some_iff.1 h).symm⟩

lemma Leaves.keyword (h : keyword? w s = some rest) : Leaves (word w) s rest :=
  ⟨w.toList, rfl, (keyword?_eq_some_iff.1 h).1.symm⟩

lemma Leaves.around (h : between? (literal? w) s = some rest) : Leaves (around w) s rest := by
  obtain ⟨t, ht, hs, -⟩ := Grammar.exists_around h
  exact ⟨t, Grammar.mem_around_iff.2 ht, hs.symm⟩

end Leaves

namespace Obeys

variable {α β : Type} {l l' m : Language Char} {s u rest : List Char} {w : String}
  {r : Except Fault (α × List Char)} {f : α × List Char → Except Fault (β × List Char)}

lemma ok {x : α} (h : Leaves l s rest) : Obeys l s (.ok (x, rest)) where
  leaves heq := by
    obtain ⟨rfl, rfl⟩ : _ ∧ rest = _ := by simpa using heq
    exact h
  stops := nofun

lemma error {e : Fault} (h : Leaves (prefixes l) s e.remaining) :
    Obeys l s (.error e : Except Fault (α × List Char)) where
  leaves := nofun
  stops heq := by
    obtain rfl : e = _ := Except.error.inj heq
    exact h

lemma stop {c : Complaint} (h : Leaves (prefixes l) s rest) :
    Obeys l s (Reading.stop rest c : Except Fault (α × List Char)) :=
  error h

lemma mono (h : Obeys l s r) (hl : l ≤ l') : Obeys l' s r where
  leaves heq := (h.leaves heq).mono hl
  stops heq := (h.stops heq).mono (prefixes_mono hl)

/-- A reader that goes on behind a text. -/
lemma behind (h : Leaves l s u) (h' : Obeys m u r) : Obeys (l * m) s r where
  leaves heq := h.mul (h'.leaves heq)
  stops heq := h.mul_prefixes (h'.stops heq)

/-- A reader in two steps, looked at as a whole. -/
lemma steps (hstop : ∀ {e}, r = .error e → Leaves (prefixes l) s e.remaining)
    (hok : ∀ {x rest}, r = .ok (x, rest) → Obeys l s (f (x, rest))) : Obeys l s (r >>= f) := by
  cases r with
  | error e => exact error (hstop rfl)
  | ok p => exact hok rfl

/-- A reader in two steps, one behind the other. -/
lemma bind (h : Obeys l s r) (hm : ∃ t, t ∈ m)
    (hf : ∀ {x rest}, r = .ok (x, rest) → Obeys m rest (f (x, rest))) :
    Obeys (l * m) s (r >>= f) :=
  steps (fun heq => (h.stops heq).prefixes_mul hm)
    fun heq => behind (h.leaves heq) (hf heq)

/-- What was read is given another form. -/
lemma map (h : Obeys l s r) (hf : ∀ x rest, ∃ y, f (x, rest) = .ok (y, rest)) :
    Obeys l s (r >>= f) := by
  refine steps h.stops fun {x rest} heq => ?_
  obtain ⟨y, hy⟩ := hf x rest
  rw [hy]
  exact ok (h.leaves heq)

/-! #### Blanks and words -/

/-- Blanks are passed over. Some stand there if what comes next starts with a letter or digit and
must not touch what is in front: where nothing of it was read, they can still be put in. -/
lemma gap (hs : startsAlphanumeric s = false) (hl : StartsWord l)
    (h : Obeys l (dropBlanks s) r) : Obeys (gap * l) s r := by
  constructor
  · intro x rest heq
    obtain ⟨t, ht, hrest⟩ := h.leaves heq
    have hword : startsAlphanumeric (dropBlanks s) = true := by
      rw [← hrest]
      exact startsAlphanumeric_of_front (hl t ht) rest
    obtain ⟨b, hb, hsplit⟩ := exists_gap hs hword
    refine ⟨b ++ t, Language.append_mem_mul hb ht, ?_⟩
    rw [List.append_assoc, hrest, ← hsplit]
  · intro e heq
    obtain ⟨t, ⟨v, hv⟩, hrest⟩ := h.stops heq
    cases t with
    | nil =>
        obtain ⟨b, hb, hsplit⟩ := exists_blanks s
        have hspace : b ++ [' '] ∈ Grammar.gap := by
          refine ⟨List.forall_mem_append.2 ⟨hb, Gap.space.blanks⟩, ?_⟩
          exact List.append_ne_nil_of_right_ne_nil b (List.cons_ne_nil ' ' [])
        refine ⟨b, ⟨' ' :: v, ?_⟩, ?_⟩
        · simpa using Language.append_mem_mul hspace hv
        · rw [← List.nil_append e.remaining, hrest, ← hsplit]
    | cons c t =>
        have hword : startsAlphanumeric (dropBlanks s) = true := by
          rw [← hrest]
          exact hl (c :: t ++ v) hv
        obtain ⟨b, hb, hsplit⟩ := exists_gap hs hword
        refine ⟨b ++ c :: t, ⟨v, ?_⟩, ?_⟩
        · rw [List.append_assoc]
          exact Language.append_mem_mul hb hv
        · rw [List.append_assoc, hrest, ← hsplit]

/-- A connective, with what it joins. -/
lemma connective (hs : connective? w s = some u) (hl : StartsWord l)
    (h : Obeys l (dropBlanks u) r) : Obeys (connective w * l) s r := by
  rw [connective?] at hs
  split_ifs at hs with hblank
  obtain ⟨hword, hend⟩ := keyword?_eq_some_iff.1 hs
  obtain ⟨b, hb, hsplit⟩ := exists_gap_of_isBlank hblank
  have hfront : Leaves (Grammar.gap * word w) s u :=
    ⟨b ++ w.toList, Language.append_mem_mul hb rfl, by rw [List.append_assoc, ← hword, ← hsplit]⟩
  rw [Grammar.connective, mul_assoc]
  exact behind hfront (gap hend hl h)

/-- A word `not`, or nothing, with what comes behind it. -/
lemma negation (hl : StartsWord l) (h : Obeys l (skipNot s).2 r) : Obeys (negation * l) s r := by
  rw [Grammar.negation, add_mul, one_mul]
  rw [skipNot] at h
  cases hnot : keyword? "not" s with
  | none =>
      rw [hnot] at h
      exact h.mono le_self_add
  | some u =>
      rw [hnot] at h
      rw [mul_assoc]
      have hend := (keyword?_eq_some_iff.1 hnot).2
      exact (behind (.keyword hnot) (gap hend hl h)).mono le_add_self

/-! #### Chains -/

section Chain

variable {mark : Mark} {item : Reader α}
  (link : ∀ {s u}, mark s = some u → Obeys (m * l) s (item u))

include link

/-- The items behind the first, if each obeys a language together with its mark. -/
lemma more (bound : List Char) : Obeys (m * l)∗ s (Reading.more mark item bound s) := by
  induction bound generalizing s with
  | nil => exact ok (.nil (Language.nil_mem_kstar _) s)
  | cons _ bound ih =>
      rw [Reading.more]
      cases hmark : mark s with
      | none => exact ok (.nil (Language.nil_mem_kstar _) s)
      | some u =>
          refine .mono (.bind (link hmark) ⟨[], Language.nil_mem_kstar _⟩ fun {x rest} _ => ?_)
            mul_kstar_le_kstar
          refine .map ih ?_
          exact fun xs rest => ⟨x :: xs, rfl⟩

/-- A chain, if its first item obeys a language, and each further one does together with its
mark. -/
lemma chain (first : Obeys l s (item u)) : Obeys (items m l) s (Reading.chain mark item u) := by
  refine .bind first ⟨[], Language.nil_mem_kstar _⟩ fun {x rest} _ => ?_
  refine .map (more link rest) ?_
  exact fun xs rest => ⟨x :: xs, rfl⟩

end Chain

end Obeys

end Reading

end PluralRules
