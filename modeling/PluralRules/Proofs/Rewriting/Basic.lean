import PluralRules.Proofs.Grammar.Basic

/-!
Texts in another layout and in another spelling.

A text keeps its meaning if its gaps are replaced by other gaps, and signs by the words that mean
the same. Both are replacements of pieces of a text, and what stands between the pieces is kept.

* `Text.Regapped`, `Text.Relaid`: a text with other gaps, and one that has other blanks at its ends
  too.
* `Text.Synonym`, `Text.Respelled`: the signs with their words, and a text in which one sign is
  replaced by its word.
* `Text.Rewritten`: a text in which gaps and signs are replaced, any number of them. It holds both
  of regapped texts (`Regapped.rewritten`) and of respelled ones (`Respelled.rewritten`).
* `Text.Rewritten.exists_append`: what is rewritten of two texts in a row, if no piece that can be
  replaced reaches from one into the other (`Text.Cut`).
* `Text.Rewritten.exists_word`, `exists_sign`: what is rewritten of a text that starts with a word
  or a sign.
-/

namespace PluralRules.Text

/-! ### Layout -/

instance : DecidablePred Blanks := fun s => List.decidableBAll (isBlank ·) s

/-- A text with other gaps: each is replaced by a gap, and all other characters are kept. -/
inductive Regapped : List Char → List Char → Prop where
  | nil : Regapped [] []
  | char {c : Char} {s t : List Char} (hc : isBlank c = false) (rest : Regapped s t) :
      Regapped (c :: s) (c :: t)
  | gap {b b' s t : List Char} (before : Gap b) (after : Gap b') (rest : Regapped s t) :
      Regapped (b ++ s) (b' ++ t)

lemma Regapped.symm {s t : List Char} (h : Regapped s t) : Regapped t s := by
  induction h with
  | nil => exact .nil
  | char hc _ ih => exact .char hc ih
  | gap hb hb' _ ih => exact .gap hb' hb ih

/-- A text in another layout: it has other gaps, and any other blanks at its two ends. -/
inductive Relaid : List Char → List Char → Prop where
  | intro {b s e b' s' e' : List Char} (left : Blanks b) (right : Blanks e) (left' : Blanks b')
      (right' : Blanks e') (inner : Regapped s s') : Relaid (b ++ s ++ e) (b' ++ s' ++ e')

lemma Relaid.symm {s t : List Char} (h : Relaid s t) : Relaid t s := by
  obtain ⟨hb, he, hb', he', hinner⟩ := h
  exact .intro hb' he' hb he hinner.symm

/-! ### Spelling -/

/-- A sign, and the words that mean the same with a space on both sides. -/
inductive Synonym : List Char → List Char → Prop where
  | mod : Synonym ['%'] " mod ".toList
  | notIn : Synonym ['!', '='] " not in ".toList
  | in : Synonym ['='] " in ".toList

/-- No two signs start the same text. -/
lemma Synonym.eq_of_append_eq {a a' b b' s t : List Char} (ha : Synonym a a') (hb : Synonym b b')
    (h : a ++ s = b ++ t) : a' = b' ∧ s = t := by
  cases ha <;> cases hb <;> simp_all

/-- A text with one sign replaced by its words, anywhere in it. The second half of `!=` is no sign.
-/
inductive Respelled : List Char → List Char → Prop where
  | intro {u w w' v : List Char} (sign : Synonym w w') (whole : w = ['='] → '!' ∉ u.getLast?) :
      Respelled (u ++ w ++ v) (u ++ w' ++ v)

/-! ### Rewritten texts -/

/-- What can be replaced in a text, and by what. -/
inductive Replacement (a a' : List Char) : Prop where
  | gap (before : Gap a) (after : Gap a') : Replacement a a'
  | sign (h : Synonym a a') : Replacement a a'

/-- A text in which some gaps and signs are replaced. Where the first half of `!=` is kept, so is
the second. -/
inductive Rewritten : List Char → List Char → Prop where
  | nil : Rewritten [] []
  | keep {c : Char} {s t : List Char} (hc : isBlank c = false)
      (hnext : c = '!' → '=' ∈ s.head? → '=' ∈ t.head?) (rest : Rewritten s t) :
      Rewritten (c :: s) (c :: t)
  | replace {a a' s t : List Char} (h : Replacement a a') (rest : Rewritten s t) :
      Rewritten (a ++ s) (a' ++ t)

variable {a a' b s t u v w : List Char} {c d : Char}

/-- A character that is no part of anything that can be replaced. -/
def Plain (c : Char) : Prop :=
  isBlank c = false ∧ c ∉ ['%', '!', '=']

instance : DecidablePred Plain := fun _ => inferInstanceAs (Decidable (_ ∧ _))

-- On the characters of the text, before an instance that runs over all characters is found.
instance (u : List Char) : Decidable (∀ c ∈ u, Plain c) := List.decidableBAll Plain u

lemma plain_of_isAlphanum (hc : c.isAlphanum) : Plain c := by
  refine ⟨isBlank_eq_false_of_isAlphanum hc, fun hmem => ?_⟩
  simp only [List.mem_cons, List.not_mem_nil, or_false] at hmem
  rcases hmem with rfl | rfl | rfl <;> exact absurd hc (by decide)

namespace Replacement

lemma ne_nil (h : Replacement a a') : a ≠ [] ∧ a' ≠ [] := by
  cases h with
  | gap hb hb' => exact ⟨hb.ne_nil, hb'.ne_nil⟩
  | sign h => cases h <;> exact ⟨by simp, by simp⟩

/-- Where something that can be replaced is cut in two, there are blanks on both sides, or the
halves of `!=`. -/
lemma exists_halves (h : Replacement (u ++ v) a') (hu : u ≠ []) (hv : v ≠ []) :
    ∃ c ∈ u.getLast?, ∃ d ∈ v.head?, isBlank c = true ∧ isBlank d = true ∨ c = '!' ∧ d = '=' := by
  generalize hw : u ++ v = w at h
  cases h with
  | gap hb _ =>
      have hlast := hb.blanks (u.getLast hu) (by simp [← hw])
      have hhead := hb.blanks (v.head hv) (by simp [← hw])
      exact ⟨_, List.getLast?_eq_getLast_of_ne_nil hu, _, List.head?_eq_some_head hv,
        .inl ⟨hlast, hhead⟩⟩
  | sign h =>
      obtain ⟨c, u, rfl⟩ := List.exists_cons_of_ne_nil hu
      obtain ⟨d, v, rfl⟩ := List.exists_cons_of_ne_nil hv
      cases h with
      | mod => simp at hw
      | «in» => simp at hw
      | notIn =>
          cases u with
          | nil => exact ⟨c, rfl, d, rfl, .inr (by simp_all)⟩
          | cons e u => simp at hw

end Replacement

/-! ### Two texts in a row -/

/-- No piece that can be replaced reaches from the first text into the second. -/
def Cut (u v : List Char) : Prop :=
  ∀ c ∈ u.getLast?, ∀ d ∈ v.head?,
    ¬ (isBlank c = true ∧ isBlank d = true ∨ c = '!' ∧ d = '=')

namespace Cut

lemma of_last (h : ∀ c ∈ u.getLast?, Plain c) : Cut u v := by
  rintro c hc d - (⟨hblank, -⟩ | ⟨rfl, -⟩)
  · rw [(h c hc).1] at hblank
    exact Bool.false_ne_true hblank
  · exact absurd (h '!' hc) (by decide)

lemma of_head (h : ∀ d ∈ v.head?, Plain d) : Cut u v := by
  rintro c - d hd (⟨-, hblank⟩ | ⟨-, rfl⟩)
  · rw [(h d hd).1] at hblank
    exact Bool.false_ne_true hblank
  · exact absurd (h '=' hd) (by decide)

lemma of_blanks (hu : Blanks u) (hv : ∀ d ∈ v.head?, isBlank d = false) : Cut u v := by
  rintro c hc d hd (⟨-, hblank⟩ | ⟨rfl, -⟩)
  · rw [hv d hd] at hblank
    exact Bool.false_ne_true hblank
  · exact absurd (hu '!' (List.mem_of_mem_getLast? hc)) (by decide)

lemma of_append (h : Cut (s ++ u) v) : Cut u v :=
  fun c hc d hd => h c (by simp [List.getLast?_append, Option.mem_def.1 hc]) d hd

end Cut

namespace Rewritten

lemma nil_eq (h : Rewritten [] t) : t = [] := by
  generalize hs : [] = s at h
  cases h with
  | nil => rfl
  | keep _ _ _ => exact absurd hs.symm (List.cons_ne_nil _ _)
  | replace h _ => exact absurd (List.append_eq_nil_iff.1 hs.symm).1 h.ne_nil.1

lemma ne_nil (h : Rewritten s t) (hs : s ≠ []) : t ≠ [] := by
  cases h with
  | nil => exact absurd rfl hs
  | keep _ _ _ => exact List.cons_ne_nil _ _
  | replace h _ => exact List.append_ne_nil_of_left_ne_nil h.ne_nil.2 _

/-- Of two texts in a row each one is rewritten, if the place between them cuts nothing in two. -/
theorem exists_append (h : Rewritten (u ++ v) w) (hcut : Cut u v) :
    ∃ u' v', w = u' ++ v' ∧ Rewritten u u' ∧ Rewritten v v' := by
  generalize hs : u ++ v = s at h
  induction h generalizing u with
  | nil =>
      obtain ⟨rfl, rfl⟩ := List.append_eq_nil_iff.1 hs
      exact ⟨[], [], rfl, .nil, .nil⟩
  | @keep c s t hc hnext hrest ih =>
      cases u with
      | nil =>
          obtain rfl : v = c :: s := hs
          exact ⟨[], _, rfl, .nil, .keep hc hnext hrest⟩
      | cons d u =>
          obtain rfl : u ++ v = s := (List.cons.inj hs).2
          obtain rfl : d = c := (List.cons.inj hs).1
          obtain ⟨u', v', rfl, hu, hv⟩ := ih (hcut.of_append (s := [d])) rfl
          refine ⟨d :: u', v', rfl, .keep hc (fun hd heq => ?_) hu, hv⟩
          -- What comes behind the kept character is in the first text, before and after.
          have hne : u ≠ [] := by
            rintro rfl
            exact Option.not_mem_none _ heq
          rw [List.head?_append_of_ne_nil _ hne] at hnext
          have hnext' := hnext hd heq
          rwa [List.head?_append_of_ne_nil _ (hu.ne_nil hne)] at hnext'
  | @replace a a' s t h hrest ih =>
      rcases List.append_eq_append_iff.1 hs with ⟨x, rfl, rfl⟩ | ⟨y, rfl, rfl⟩
      · -- The place is inside the piece, or at one of its ends.
        rcases eq_or_ne u [] with rfl | hu
        · exact ⟨[], _, rfl, .nil, .replace h hrest⟩
        · rcases eq_or_ne x [] with rfl | hx
          · rw [List.append_nil] at h
            refine ⟨a', t, rfl, ?_, hrest⟩
            simpa using Rewritten.replace h .nil
          · obtain ⟨c, hc, d, hd, hhalves⟩ := h.exists_halves hu hx
            rw [← List.head?_append_of_ne_nil x hx] at hd
            exact absurd hhalves (hcut c hc d hd)
      · obtain ⟨u', v', rfl, hu, hv⟩ := ih hcut.of_append rfl
        exact ⟨a' ++ u', v', (List.append_assoc _ _ _).symm, .replace h hu, hv⟩

/-! ### What a text starts with -/

/-- A character that is no blank is kept, or a sign starts with it and is replaced. -/
lemma exists_of_cons (hc : isBlank c = false) (h : Rewritten (c :: s) w) :
    (∃ t, w = c :: t ∧ (c = '!' → '=' ∈ s.head? → '=' ∈ t.head?) ∧ Rewritten s t) ∨
      ∃ a a' u t, Synonym a a' ∧ c :: s = a ++ u ∧ w = a' ++ t ∧ Rewritten u t := by
  generalize hs : c :: s = u at h
  cases h with
  | nil => exact absurd hs (List.cons_ne_nil _ _)
  | keep _ hnext hrest =>
      obtain ⟨rfl, rfl⟩ := List.cons.inj hs
      exact .inl ⟨_, rfl, hnext, hrest⟩
  | @replace a a' u t h hrest =>
      cases h with
      | gap hb _ =>
          obtain ⟨d, a, rfl⟩ := List.exists_cons_of_ne_nil hb.ne_nil
          obtain ⟨rfl, -⟩ := List.cons.inj hs
          exact absurd (hb.blanks c (by simp)) (by simp [hc])
      | sign h => exact .inr ⟨a, a', u, t, h, hs.symm ▸ rfl, rfl, hrest⟩

lemma exists_cons (hc : Plain c) (h : Rewritten (c :: s) w) : ∃ t, w = c :: t ∧ Rewritten s t := by
  rcases h.exists_of_cons hc.1 with ⟨t, rfl, -, ht⟩ | ⟨a, a', u, t, ha, hs, -, -⟩
  · exact ⟨t, rfl, ht⟩
  · obtain ⟨-, hsign⟩ := hc
    cases ha <;> simp_all

/-- Plain characters are kept. -/
lemma exists_word (hu : ∀ c ∈ u, Plain c) (h : Rewritten (u ++ s) w) :
    ∃ t, w = u ++ t ∧ Rewritten s t := by
  induction u generalizing w with
  | nil => exact ⟨w, rfl, h⟩
  | cons c u ih =>
      rw [List.forall_mem_cons] at hu
      obtain ⟨v, rfl, hv⟩ := h.exists_cons hu.1
      obtain ⟨t, rfl, ht⟩ := ih hu.2 hv
      exact ⟨t, rfl, ht⟩

lemma eq_of_plain (hu : ∀ c ∈ u, Plain c) (h : Rewritten u w) : w = u := by
  rw [← List.append_nil u] at h
  obtain ⟨t, rfl, ht⟩ := h.exists_word hu
  rw [ht.nil_eq, List.append_nil]

/-- A sign is kept or replaced by its words. -/
lemma exists_sign (ha : Synonym a a') (h : Rewritten (a ++ s) w) :
    ∃ t, (w = a ++ t ∨ w = a' ++ t) ∧ Rewritten s t := by
  obtain ⟨c, a, rfl, hc⟩ : ∃ c r, a = c :: r ∧ isBlank c = false := by
    cases ha <;> exact ⟨_, _, rfl, rfl⟩
  rcases h.exists_of_cons hc with ⟨t, rfl, hnext, ht⟩ | ⟨_, _, _, t, ha', hs, rfl, ht⟩
  · cases ha with
    | mod => exact ⟨t, .inl rfl, ht⟩
    | «in» => exact ⟨t, .inl rfl, ht⟩
    | notIn =>
        -- The second half is kept with the first one.
        have hhead := hnext rfl rfl
        rcases ht.exists_of_cons rfl with ⟨v, rfl, -, hv⟩ | ⟨_, _, _, _, ha, -, rfl, -⟩
        · exact ⟨v, .inl rfl, hv⟩
        · cases ha <;> exact absurd hhead (by simp)
  · obtain ⟨rfl, rfl⟩ := ha.eq_of_append_eq ha' hs
    exact ⟨t, .inr rfl, ht⟩

lemma blanks (h : Rewritten s t) (hs : Blanks s) : Blanks t := by
  induction h with
  | nil => exact Blanks.nil
  | @keep c s t hc _ _ _ =>
      rw [hs c List.mem_cons_self] at hc
      exact absurd hc (by decide)
  | replace h _ ih =>
      obtain ⟨ha, hrest⟩ : Blanks _ ∧ Blanks _ := List.forall_mem_append.1 hs
      refine List.forall_mem_append.2 ⟨?_, ih hrest⟩
      cases h with
      | gap _ hb' => exact hb'.blanks
      | sign h => cases h <;> exact absurd ha (by decide)

lemma gap (h : Rewritten s t) (hs : Gap s) : Gap t :=
  ⟨h.blanks hs.blanks, h.ne_nil hs.ne_nil⟩

lemma startsAlphanumeric_eq_false (h : Rewritten s t) (hs : Reading.startsAlphanumeric s = false) :
    Reading.startsAlphanumeric t = false := by
  cases h with
  | nil => rfl
  | keep _ _ _ => exact hs
  | @replace _ _ _ t h _ =>
      cases h with
      | gap _ hb' => exact Reading.startsAlphanumeric_gap hb' t
      | sign h => cases h <;> rfl

/-! ### What is rewritten -/

/-- A text can be put in front of a rewritten one. -/
lemma append_left (h : Rewritten s t) (u : List Char)
    (hu : '!' ∈ u.getLast? → '=' ∈ s.head? → '=' ∈ t.head?) : Rewritten (u ++ s) (u ++ t) := by
  induction u with
  | nil => exact h
  | cons c u ih =>
      have hrest : Rewritten (u ++ s) (u ++ t) := by
        refine ih fun hlast => hu ?_
        rw [← List.singleton_append, List.getLast?_append, Option.mem_def.1 hlast]
        rfl
      cases hc : isBlank c with
      | true =>
          have hgap : Gap [c] := ⟨List.forall_mem_singleton.2 hc, List.cons_ne_nil _ _⟩
          have hpiece : Rewritten ([c] ++ (u ++ s)) ([c] ++ (u ++ t)) :=
            .replace (.gap hgap hgap) hrest
          exact hpiece
      | false =>
          refine .keep hc (fun hbang heq => ?_) hrest
          cases u with
          | nil => exact hu (hbang ▸ rfl) heq
          | cons d u => exact heq

lemma refl (s : List Char) : Rewritten s s := by
  simpa only [List.append_nil] using append_left .nil s fun _ heq => heq

end Rewritten

lemma Regapped.rewritten (h : Regapped s t) : Rewritten s t := by
  induction h with
  | nil => exact .nil
  | char hc hrest ih =>
      refine .keep hc (fun _ heq => ?_) ih
      cases hrest with
      | nil => exact heq
      | char _ _ => exact heq
      | @gap b _ _ _ hb _ _ =>
          obtain ⟨d, b, rfl⟩ := List.exists_cons_of_ne_nil hb.ne_nil
          obtain rfl : d = '=' := Option.some.inj heq
          exact absurd (hb.blanks '=' List.mem_cons_self) (by decide)
  | gap hb hb' _ ih => exact .replace (.gap hb hb') ih

lemma Respelled.rewritten (h : Respelled s t) : Rewritten s t := by
  obtain ⟨hsign, hwhole⟩ := h
  rename_i u w w' v
  rw [List.append_assoc, List.append_assoc]
  refine .append_left (.replace (.sign hsign) (.refl v)) u fun hbang heq => ?_
  cases hsign with
  | mod => exact absurd heq (by simp)
  | notIn => exact absurd heq (by simp)
  | «in» => exact absurd hbang (hwhole rfl)

end PluralRules.Text
