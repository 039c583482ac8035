import PluralRules.Proofs.Canonical
import PluralRules.Proofs.Rewriting.Basic

/-!
The grammar of conditions, in any layout and spelling.

Each piece of the grammar is stable: a text that spells it still does when gaps and signs of it are
replaced. The pieces of a larger piece are found again in the rewritten text, since they start and
end with characters that are never replaced.

* `Text.Solid`: a text that starts and ends with such characters.
* `Text.Stable`: a set of texts that is closed under rewriting.
* `Grammar.Chain.solid`, `Grammar.stable_chain`: chains of solid items are solid, and stable.
* `Comparison.Spells.rewritten`: a comparison is stable but for a blank that its words can have in
  front.
* `Relation.stable_spells`, `Condition.stable_spells`: relations and conditions.
-/

namespace PluralRules

open Grammar Text Reading

/-! ### Solid texts -/

namespace Text

variable {b c s t u v w : List Char}

/-- A text that starts with a plain character and ends with one. -/
structure Solid (s : List Char) : Prop where
  head : ∃ c ∈ s.head?, Plain c
  last : ∀ c ∈ s.getLast?, Plain c

/-- A set of texts that is closed under rewriting. -/
def Stable (P : List Char → Prop) : Prop :=
  ∀ ⦃s t : List Char⦄, P s → Rewritten s t → P t

lemma getLast?_append_plain (hs : ∀ c ∈ s.getLast?, Plain c) (ht : ∀ c ∈ t.getLast?, Plain c) :
    ∀ c ∈ (s ++ t).getLast?, Plain c := by
  intro c hc
  rw [List.getLast?_append, Option.mem_def, Option.or_eq_some_iff] at hc
  exact hc.elim (ht c) fun h => hs c h.2

namespace Solid

lemma of_plain (hne : s ≠ []) (h : ∀ c ∈ s, Plain c) : Solid s where
  head := ⟨s.head hne, List.head?_eq_some_head hne, h _ (List.head_mem hne)⟩
  last := fun c hc => h c (List.mem_of_mem_getLast? hc)

lemma ne_nil (h : Solid s) : s ≠ [] := by
  obtain ⟨c, hc, -⟩ := h.head
  rintro rfl
  exact Option.not_mem_none _ hc

lemma head_append (h : Solid s) (t : List Char) : ∀ c ∈ (s ++ t).head?, Plain c := by
  obtain ⟨c, hc, hplain⟩ := h.head
  rw [List.head?_append_of_ne_nil s h.ne_nil]
  intro d hd
  obtain rfl : c = d := Option.some.inj (hc.symm.trans hd)
  exact hplain

lemma last_append (s : List Char) (h : Solid t) : ∀ c ∈ (s ++ t).getLast?, Plain c := by
  rw [List.getLast?_append_of_ne_nil s h.ne_nil]
  exact h.last

/-- A solid text can go on with any text that ends with a plain character, or is empty. -/
lemma append (hs : Solid s) (ht : ∀ c ∈ t.getLast?, Plain c) : Solid (s ++ t) where
  head := by
    rw [List.head?_append_of_ne_nil s hs.ne_nil]
    exact hs.head
  last := getLast?_append_plain hs.last ht

/-- Solid texts with anything between them are solid. -/
lemma span (hs : Solid s) (t : List Char) (hu : Solid u) : Solid (s ++ t ++ u) := by
  rw [List.append_assoc]
  exact hs.append (hu.last_append t)

/-- In front of a solid text, and behind one, nothing that can be replaced is cut in two. -/
lemma exists_append (hv : Solid v) (h : Rewritten (u ++ v) w) :
    ∃ u' v', w = u' ++ v' ∧ Rewritten u u' ∧ Rewritten v v' := by
  refine h.exists_append (.of_head ?_)
  simpa only [List.append_nil] using hv.head_append []

lemma exists_append_behind (hu : Solid u) (h : Rewritten (s ++ u ++ v) w) :
    ∃ s' u' v', w = s' ++ u' ++ v' ∧ Rewritten s s' ∧ Rewritten u u' ∧ Rewritten v v' := by
  obtain ⟨x, v', rfl, hx, hv⟩ := h.exists_append (.of_last (hu.last_append s))
  obtain ⟨s', u', rfl, hs, hu⟩ := hu.exists_append hx
  exact ⟨s', u', v', rfl, hs, hu, hv⟩

lemma exists_append_between (hs : Solid s) (hu : Solid u) (h : Rewritten (s ++ t ++ u) w) :
    ∃ s' t' u', w = s' ++ t' ++ u' ∧ Rewritten s s' ∧ Rewritten t t' ∧ Rewritten u u' := by
  obtain ⟨x, u', rfl, hx, hu⟩ := hu.exists_append h
  obtain ⟨s', t', rfl, hs, ht⟩ := hx.exists_append (.of_last hs.last)
  exact ⟨s', t', u', rfl, hs, ht, hu⟩

end Solid

/-- A word is found again between what its surroundings are rewritten to. -/
lemma Rewritten.exists_around (hne : u ≠ []) (hu : ∀ c ∈ u, Plain c)
    (h : Rewritten (b ++ u ++ c) w) :
    ∃ b' c', w = b' ++ u ++ c' ∧ Rewritten b b' ∧ Rewritten c c' := by
  obtain ⟨b', v, c', rfl, hb, hv, hc⟩ := (Solid.of_plain hne hu).exists_append_behind h
  rw [hv.eq_of_plain hu]
  exact ⟨b', c', rfl, hb, hc⟩

/-- A sign is found again, or its words are. -/
lemma Rewritten.exists_around_sign {a a' : List Char} (ha : Synonym a a') (hb : Blanks b)
    (h : Rewritten (b ++ a ++ c) w) :
    ∃ b' c', (w = b' ++ a ++ c' ∨ w = b' ++ a' ++ c') ∧ Blanks b' ∧ Rewritten c c' := by
  have hhead : ∀ d ∈ (a ++ c).head?, isBlank d = false := by
    cases ha <;> exact fun d hd => Option.some.inj hd ▸ rfl
  rw [List.append_assoc] at h
  obtain ⟨b', v, rfl, hb', hv⟩ := h.exists_append (.of_blanks hb hhead)
  obtain ⟨c', hc', hrest⟩ := hv.exists_sign ha
  refine ⟨b', c', ?_, hb'.blanks hb, hrest⟩
  rw [List.append_assoc, List.append_assoc]
  exact hc'.imp (congrArg (b' ++ ·)) (congrArg (b' ++ ·))

end Text

/-! ### Words, chains and integers -/

namespace Grammar

lemma stable_around {word : String} (hne : word.toList ≠ []) (hword : ∀ c ∈ word.toList, Plain c) :
    Stable (Around word) := by
  rintro _ w ⟨hb, hc⟩ h
  obtain ⟨b', c', rfl, hb', hc'⟩ := h.exists_around hne hword
  exact .intro (hb'.blanks hb) (hc'.blanks hc)

lemma stable_connective {word : String} (hne : word.toList ≠ [])
    (hword : ∀ c ∈ word.toList, Plain c) : Stable (Connective word) := by
  rintro _ w ⟨hb, hc⟩ h
  obtain ⟨b', c', rfl, hb', hc'⟩ := h.exists_around hne hword
  exact .intro (hb'.gap hb) (hc'.gap hc)

section Chain

variable {α : Type} {mark : List Char → Prop} {item : List Char → α → Prop} {s t : List Char}
  {xs : List α}

lemma Links.last (hsolid : ∀ ⦃t x⦄, item t x → Solid t) (h : Links mark item s xs) :
    ∀ c ∈ s.getLast?, Plain c := by
  induction h with
  | nil => exact fun _ h => absurd h (Option.not_mem_none _)
  | @cons s t _ _ _ _ hitem _ ih => exact getLast?_append_plain ((hsolid hitem).last_append s) ih

/-- A chain of solid items is solid. -/
lemma Chain.solid (hsolid : ∀ ⦃t x⦄, item t x → Solid t) (h : Chain mark item s xs) : Solid s := by
  obtain ⟨hitem, hlinks⟩ := h
  exact (hsolid hitem).append (hlinks.last hsolid)

lemma Links.rewritten (hmark : Stable mark) (hitem : ∀ x, Stable (item · x))
    (hsolid : ∀ ⦃t x⦄, item t x → Solid t) (h : Links mark item s xs) (hw : Rewritten s t) :
    Links mark item t xs := by
  induction h generalizing t with
  | nil =>
      rw [hw.nil_eq]
      exact .nil
  | cons hm hx _ ih =>
      obtain ⟨m', x', l', rfl, hm', hx', hl'⟩ := (hsolid hx).exists_append_behind hw
      exact .cons (hmark hm hm') (hitem _ hx hx') (ih hl')

/-- A chain of solid items is stable, if its marks and items are. -/
theorem stable_chain (hmark : Stable mark) (hitem : ∀ x, Stable (item · x))
    (hsolid : ∀ ⦃t x⦄, item t x → Solid t) (xs : List α) : Stable (Chain mark item · xs) := by
  rintro _ w ⟨hx, hlinks⟩ h
  obtain ⟨x', l', rfl, hx', hl'⟩ := h.exists_append (.of_last (hsolid hx).last)
  exact .intro (hitem _ hx hx') (hlinks.rewritten hmark hitem hsolid hl')

end Chain

variable {s : List Char} {x : UInt64}

lemma Integer.plain (h : Integer s x) : ∀ c ∈ s, Plain c :=
  fun c hc => plain_of_isAlphanum (isAlphanum_of_isDigit (h.isDigit c hc))

lemma Integer.solid (h : Integer s x) : Solid s :=
  .of_plain h.ne_nil h.plain

lemma stable_integer (x : UInt64) : Stable (Integer · x) := by
  intro s t hs h
  rw [h.eq_of_plain hs.plain]
  exact hs

end Grammar

/-! ### Ranges and moduli -/

namespace Range

lemma Spells.solid {s : List Char} {r : Range} (h : Range.Spells s r) : Solid s := by
  cases h with
  | single h => exact h.solid
  | span hlow _ hhigh _ => exact hlow.solid.span _ hhigh.solid

lemma stable_spells (r : Range) : Stable (Range.Spells · r) := by
  intro s w hs h
  cases hs with
  | single hx => exact .single (stable_integer _ hx h)
  | span hlow hpoints hhigh hle =>
      obtain ⟨s', t', u', rfl, hs', ht', hu'⟩ := hlow.solid.exists_append_between hhigh.solid h
      exact .span (stable_integer _ hlow hs')
        (stable_around (by simp) (by decide) hpoints ht') (stable_integer _ hhigh hu') hle

lemma SpellsList.solid {s : List Char} {rs : List Range} (h : Range.SpellsList s rs) : Solid s :=
  Chain.solid (fun _ _ h => h.solid) h

lemma stable_spellsList (rs : List Range) : Stable (Range.SpellsList · rs) :=
  stable_chain (stable_around (by simp) (by decide)) stable_spells (fun _ _ h => h.solid) rs

end Range

namespace Modulus

lemma stable_spellsMark : Stable Modulus.SpellsMark := by
  intro s w hs h
  cases hs with
  | mod hb hc =>
      obtain ⟨b', c', rfl, hb', hc'⟩ := h.exists_around (by simp) (by decide)
      exact .mod (hb'.blanks hb) (hc'.gap hc)
  | percent hsign =>
      obtain ⟨hb, hc⟩ := hsign
      obtain ⟨b', c', rfl | rfl, hb', hc'⟩ := Rewritten.exists_around_sign .mod hb h
      · exact .percent (.intro hb' (hc'.blanks hc))
      · have hbefore : Blanks (b' ++ [' ']) := List.forall_mem_append.2 ⟨hb', Gap.space.blanks⟩
        have hafter : Gap (' ' :: c') :=
          ⟨List.forall_mem_cons.2 ⟨rfl, hc'.blanks hc⟩, List.cons_ne_nil _ _⟩
        simpa using Modulus.SpellsMark.mod hbefore hafter

lemma SpellsOptional.last {s : List Char} {m? : Option Modulus} (h : Modulus.SpellsOptional s m?) :
    ∀ c ∈ s.getLast?, Plain c := by
  cases h with
  | absent => exact fun _ h => absurd h (Option.not_mem_none _)
  | present _ hm => exact (Integer.solid hm).last_append _

lemma stable_spellsOptional (m? : Option Modulus) : Stable (Modulus.SpellsOptional · m?) := by
  intro s w hs h
  cases hs with
  | absent =>
      rw [h.nil_eq]
      exact .absent
  | present hmark hm =>
      obtain ⟨s', t', rfl, hs', ht'⟩ := (Integer.solid hm).exists_append h
      exact .present (stable_spellsMark hmark hs') (stable_integer _ hm ht')

end Modulus

/-! ### Relations -/

namespace Grammar.Negation

variable {s t w : List Char} {negated : Bool}

lemma solid_append (h : Negation s negated) (ht : Solid t) : Solid (s ++ t) := by
  cases h with
  | absent => exact ht
  | present _ => exact ⟨⟨'n', rfl, by decide⟩, ht.last_append _⟩

/-- A negation in front of a solid text is found again. -/
lemma rewritten (h : Negation s negated) (ht : Solid t) (hw : Rewritten (s ++ t) w) :
    ∃ s' t', w = s' ++ t' ∧ Negation s' negated ∧ Rewritten t t' := by
  obtain ⟨s', t', rfl, hs', ht'⟩ := ht.exists_append hw
  refine ⟨s', t', rfl, ?_, ht'⟩
  cases h with
  | absent =>
      rw [hs'.nil_eq]
      exact .absent
  | present hb =>
      obtain ⟨b', rfl, hb'⟩ := hs'.exists_word (by decide)
      exact .present (hb'.gap hb)

end Grammar.Negation

namespace Comparison

variable {s t u w : List Char} {negated : Bool} {c : Comparison} {ranges : List Range}

lemma Word.solid {word : String} (h : Comparison.Word word c) :
    Solid word.toList ∧ ∀ d ∈ word.toList, Plain d := by
  have hplain : ∀ d ∈ word.toList, Plain d := by cases h <;> decide
  exact ⟨.of_plain (by cases h <;> simp) hplain, hplain⟩

/-- Behind a sign, blanks and the list of ranges are found again, and the words of the sign can take
its place. -/
lemma rewritten_sign {sign b : List Char} (hsign : Synonym sign (' ' :: (s ++ "in ".toList)))
    (hnegation : Negation s negated) (hb : Blanks b) (hlist : Range.SpellsList t ranges)
    (hkept : ∀ {b' t'}, Blanks b' → Range.SpellsList t' ranges →
      Comparison.Spells (sign ++ b' ++ t') negated .in ranges)
    (hw : Rewritten (sign ++ b ++ t) w) :
    ∃ b₀ u, Blanks b₀ ∧ w = b₀ ++ u ∧ Comparison.Spells u negated .in ranges := by
  rw [List.append_assoc] at hw
  obtain ⟨v, hv, hrest⟩ := hw.exists_sign hsign
  obtain ⟨b', t', rfl, hb', ht'⟩ := hlist.solid.exists_append hrest
  have hlist' := Range.stable_spellsList _ hlist ht'
  rcases hv with rfl | rfl
  · refine ⟨[], _, Blanks.nil, ?_, hkept (hb'.blanks hb) hlist'⟩
    rw [List.nil_append, List.append_assoc]
  · have hafter : Gap ([' '] ++ b') :=
      ⟨List.forall_mem_append.2 ⟨Gap.space.blanks, hb'.blanks hb⟩, List.cons_ne_nil _ _⟩
    refine ⟨[' '], _, Gap.space.blanks, ?_, .membership hnegation .in hafter hlist'⟩
    simp

/-- What is rewritten of a comparison spells it, behind blanks that the words of its sign can have
in front. -/
theorem Spells.rewritten (h : Comparison.Spells s negated c ranges) (hw : Rewritten s w) :
    ∃ b t, Blanks b ∧ w = b ++ t ∧ Comparison.Spells t negated c ranges := by
  cases h with
  | @is b s t _ _ hb hnegation hx =>
      rw [List.append_assoc, List.append_assoc] at hw
      obtain ⟨v, rfl, hv⟩ := hw.exists_word (by decide)
      obtain ⟨b', v, rfl, hb', hv⟩ := (hnegation.solid_append hx.solid).exists_append hv
      obtain ⟨s', t', rfl, hs', ht'⟩ := hnegation.rewritten hx.solid hv
      refine ⟨[], _, Blanks.nil, ?_, .is (hb'.gap hb) hs' (stable_integer _ hx ht')⟩
      simp only [List.nil_append, List.append_assoc]
  | equal hb hlist => exact rewritten_sign .in .absent hb hlist .equal hw
  | notEqual hb hlist => exact rewritten_sign .notIn negation_not hb hlist .notEqual hw
  | @membership s b t _ word _ _ hnegation hword hb hlist =>
      obtain ⟨hsolid, hplain⟩ := hword.solid
      have hrest : Solid (word.toList ++ (b ++ t)) := by
        rw [← List.append_assoc]
        exact hsolid.span b hlist.solid
      rw [List.append_assoc, List.append_assoc] at hw
      obtain ⟨s', v, rfl, hs', hv⟩ := hnegation.rewritten hrest hw
      obtain ⟨v, rfl, hlast⟩ := hv.exists_word hplain
      obtain ⟨b', t', rfl, hb', ht'⟩ := hlist.solid.exists_append hlast
      refine ⟨[], _, Blanks.nil, ?_,
        .membership hs' hword (hb'.gap hb) (Range.stable_spellsList _ hlist ht')⟩
      simp only [List.nil_append, List.append_assoc]

end Comparison

namespace Relation

variable {s t : List Char} {r : Relation}

lemma plain_symbol (o : Operand) : Plain o.symbol := by
  cases o <;> decide

lemma Spells.solid (h : Relation.Spells s r) : Solid s := by
  obtain @⟨o, s, b, _, _, _, _, _, -, -, hcomparison, -⟩ := h
  obtain ⟨before, u, rfl, hlist, -⟩ := Comparison.exists_ranges hcomparison
  have hlast := (Range.SpellsList.solid hlist).last_append (o.symbol :: (s ++ b) ++ before)
  refine ⟨⟨o.symbol, rfl, plain_symbol o⟩, ?_⟩
  simpa only [List.cons_append, List.append_assoc] using hlast

/-- Relations are stable. The words of a sign bring their own blanks, so that nothing touches the
operand. -/
theorem stable_spells (r : Relation) : Stable (Relation.Spells · r) := by
  rintro _ w @⟨o, s, b, t, m?, _, _, _, hmodulus, hb, hcomparison, hapart⟩ hw
  obtain ⟨v, rfl, hv⟩ := hw.exists_cons (plain_symbol o)
  have hapart' := hv.startsAlphanumeric_eq_false hapart
  -- A comparison starts with no blank, and with `=` it does not stand behind `!`.
  have hcut : Cut (s ++ b) t := by
    obtain ⟨d, t, rfl, hd, -⟩ := Comparison.exists_head hcomparison
    rintro e he _ hhead (⟨-, hblank⟩ | ⟨rfl, -⟩)
    · obtain rfl := Option.some.inj hhead
      rw [hd] at hblank
      exact Bool.false_ne_true hblank
    · rw [List.getLast?_append, Option.mem_def, Option.or_eq_some_iff] at he
      rcases he with he | ⟨-, he⟩
      · exact absurd (hb '!' (List.mem_of_mem_getLast? he)) (by decide)
      · exact absurd (hmodulus.last '!' he) (by decide)
  obtain ⟨x, t', rfl, hx, ht'⟩ := hv.exists_append hcut
  obtain ⟨s', b', rfl, hs', hb'⟩ := hx.exists_append (.of_last hmodulus.last)
  obtain ⟨b₀, u, hb₀, rfl, hu⟩ := hcomparison.rewritten ht'
  have hbetween : Blanks (b' ++ b₀) := List.forall_mem_append.2 ⟨hb'.blanks hb, hb₀⟩
  rw [← List.append_assoc, List.append_assoc s'] at hapart' ⊢
  exact .intro (Modulus.stable_spellsOptional m? hmodulus hs') hbetween hu hapart'

end Relation

/-! ### Conditions -/

namespace Condition

variable {s : List Char} {c : Condition}

lemma SpellsConjunction.solid (h : SpellsConjunction s c) : Solid s := by
  cases h with
  | single hr => exact hr.solid
  | group hrs _ => exact hrs.solid fun _ _ h => h.solid

lemma stable_spellsConjunction (c : Condition) : Stable (SpellsConjunction · c) := by
  intro s w hs h
  cases hs with
  | single hr => exact .single (Relation.stable_spells _ hr h)
  | group hrs htwo =>
      exact .group (stable_chain (stable_connective (by simp) (by decide)) Relation.stable_spells
        (fun _ _ h => h.solid) _ hrs h) htwo

lemma Spells.solid (h : Condition.Spells s c) : Solid s := by
  cases h with
  | single hc => exact hc.solid
  | group hparts _ => exact hparts.solid fun _ _ h => h.solid

theorem stable_spells (c : Condition) : Stable (Condition.Spells · c) := by
  intro s w hs h
  cases hs with
  | single hc => exact .single (stable_spellsConjunction c hc h)
  | group hparts htwo =>
      exact .group (stable_chain (stable_connective (by simp) (by decide)) stable_spellsConjunction
        (fun _ _ h => h.solid) _ hparts h) htwo

theorem stable_spellsOptional (c : Condition) : Stable (SpellsOptional · c) := by
  intro s w hs h
  cases hs with
  | absent =>
      rw [h.nil_eq]
      exact .absent
  | present hc => exact .present (stable_spells c hc h)

lemma SpellsOptional.solid (h : SpellsOptional s c) : s = [] ∨ Solid s := by
  cases h with
  | absent => exact .inl rfl
  | present h => exact .inr h.solid

end Condition

end PluralRules
