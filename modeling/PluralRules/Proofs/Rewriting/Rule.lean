import PluralRules.Proofs.Rewriting.Grammar

/-!
Rules in any layout and spelling.

* `Sample.stable_spellsAnnotation`: the samples of one kind are stable.
* `Text.Loose`: a set of texts that is closed under rewriting, and has blanks added and taken away
  at the end of its texts and added in front. Sections that are solid or missing, one behind the
  other with blanks around them, are loose (`Text.Loose.behind`).
* `Rule.spells_iff_sections`: a rule is such a row of sections.
* `Rule.Spells.relaid`, `Rule.Spells.respelled`: what spells a rule does so in any layout, and with
  signs replaced by their words.
* `Rule.ofText_rewritten`: so it is read as the same rule, and what is no rule is none in any
  layout.
-/

namespace PluralRules

open Grammar Text Reading

/-! ### Samples -/

namespace Operands

variable {s : List Char} {o : Operands}

lemma Spells.plain (h : Operands.Spells s o) : s ≠ [] ∧ ∀ c ∈ s, Plain c := by
  obtain @⟨x, _, hsign, -, -⟩ := h
  have hchars : x.chars = x.whole ++ if x.fraction = [] then [] else '.' :: x.fraction := by
    rw [Numeral.chars, hsign, Numeral.magnitude]
    rfl
  have hdigit : ∀ c : Char, c.isDigit → Plain c :=
    fun c hc => plain_of_isAlphanum (isAlphanum_of_isDigit hc)
  rw [hchars]
  refine ⟨List.append_ne_nil_of_left_ne_nil x.whole_ne_nil _, List.forall_mem_append.2 ⟨?_, ?_⟩⟩
  · exact fun c hc => hdigit c (x.isDigit_whole c hc)
  · split
    · exact List.forall_mem_nil Plain
    · exact List.forall_mem_cons.2 ⟨by decide, fun c hc => hdigit c (x.isDigit_fraction c hc)⟩

lemma Spells.solid (h : Operands.Spells s o) : Solid s :=
  .of_plain h.plain.1 h.plain.2

lemma stable_spells (o : Operands) : Stable (Operands.Spells · o) := by
  intro s t hs h
  rw [h.eq_of_plain hs.plain.2]
  exact hs

end Operands

namespace Sample

variable {kind : SampleKind} {s : List Char} {x : Sample} {xs : List Sample}

lemma Spells.solid (h : Sample.Spells kind s x) : Solid s := by
  cases h with
  | value h => exact h.solid
  | span hlow _ hhigh => exact hlow.solid.span _ hhigh.solid

lemma stable_spells (x : Sample) : Stable (Sample.Spells kind · x) := by
  intro s w hs h
  cases hs with
  | value hlow => exact .value (Operands.stable_spells _ hlow h)
  | span hlow htilde hhigh =>
      obtain ⟨s', t', u', rfl, hs', ht', hu'⟩ := hlow.solid.exists_append_between hhigh.solid h
      exact .span (Operands.stable_spells _ hlow hs')
        (stable_around (by simp) (by decide) htilde ht') (Operands.stable_spells _ hhigh hu')

lemma Ending.last (h : Ending s) : ∀ c ∈ s.getLast?, Plain c := by
  cases h with
  | absent => exact fun _ h => absurd h (Option.not_mem_none _)
  | ellipsis _ => exact (Solid.of_plain (by simp) (by decide)).last_append _
  | points _ => exact (Solid.of_plain (by simp) (by decide)).last_append _

/-- A comma with an ellipsis behind it is found again. -/
lemma rewritten_ending {t u w : List Char} (hcomma : Around "," t) (hne : u ≠ [])
    (hu : ∀ c ∈ u, Plain c) (h : Rewritten (t ++ u) w) : ∃ t', Around "," t' ∧ w = t' ++ u := by
  obtain ⟨t', u', rfl, ht', hu'⟩ := (Solid.of_plain hne hu).exists_append h
  rw [hu'.eq_of_plain hu]
  exact ⟨t', stable_around (by simp) (by decide) hcomma ht', rfl⟩

lemma stable_ending : Stable Ending := by
  intro s w hs h
  cases hs with
  | absent =>
      rw [h.nil_eq]
      exact .absent
  | ellipsis hcomma =>
      obtain ⟨t', ht', rfl⟩ := rewritten_ending hcomma (by simp) (by decide) h
      exact .ellipsis ht'
  | points hcomma =>
      obtain ⟨t', ht', rfl⟩ := rewritten_ending hcomma (by simp) (by decide) h
      exact .points ht'

lemma SpellsList.solid (h : Sample.SpellsList kind s xs) : Solid s := by
  obtain ⟨hchain, hending⟩ := h
  exact (hchain.solid fun _ _ h => h.solid).append hending.last

lemma stable_spellsList (xs : List Sample) : Stable (Sample.SpellsList kind · xs) := by
  rintro _ w ⟨hchain, hending⟩ h
  obtain ⟨s', t', rfl, hs', ht'⟩ :=
    h.exists_append (.of_last (hchain.solid fun _ _ h => h.solid).last)
  have hchain' := stable_chain (stable_around (by simp) (by decide)) stable_spells
    (fun _ _ h => h.solid) xs hchain hs'
  exact .intro hchain' (stable_ending hending ht')

lemma SpellsAnnotation.solid (h : Sample.SpellsAnnotation kind s xs) : s = [] ∨ Solid s := by
  cases h with
  | absent => exact .inl rfl
  | present _ hlist =>
      have hlabel : Solid kind.label.toList := by
        cases kind <;> exact .of_plain (by decide) (by decide)
      exact .inr (hlabel.span _ hlist.solid)

/-- The samples of one kind are stable, with their annotation. -/
theorem stable_spellsAnnotation (xs : List Sample) :
    Stable (Sample.SpellsAnnotation kind · xs) := by
  intro s w hs h
  cases hs with
  | absent =>
      rw [h.nil_eq]
      exact .absent
  | present hb hlist =>
      rw [List.append_assoc] at h
      obtain ⟨v, rfl, hv⟩ := h.exists_word (by cases kind <;> decide)
      obtain ⟨b', s', rfl, hb', hs'⟩ := hlist.solid.exists_append hv
      rw [← List.append_assoc]
      exact .present (hb'.blanks hb) (stable_spellsList xs hlist hs')

end Sample

/-! ### Sections -/

namespace Text

/-- A set of texts that is closed under rewriting, and under putting blanks in front. At the end of
a text, blanks can be exchanged. -/
structure Loose (P : List Char → Prop) : Prop where
  blanks_append : ∀ ⦃b s⦄, Blanks b → P s → P (b ++ s)
  rewritten : ∀ ⦃s t e e'⦄, Rewritten s t → Blanks e → Blanks e' → P (s ++ e) → P (t ++ e')

/-- A section, perhaps empty, with blanks in front and some text behind. -/
def Behind (P Q : List Char → Prop) (s : List Char) : Prop :=
  ∃ b u v, Blanks b ∧ P u ∧ Q v ∧ s = b ++ u ++ v

lemma loose_blanks : Loose Blanks where
  blanks_append _ _ hb hs := List.forall_mem_append.2 ⟨hb, hs⟩
  rewritten _ _ _ _ h _ he' hs :=
    List.forall_mem_append.2 ⟨h.blanks (List.forall_mem_append.1 hs).1, he'⟩

/-- Where a text ends with blanks, a solid part of it is in front of them. -/
lemma Solid.exists_of_append_eq {b u v s e : List Char} (hu : Solid u) (he : Blanks e)
    (h : s ++ e = b ++ u ++ v) : ∃ v', s = b ++ u ++ v' ∧ v = v' ++ e := by
  rcases List.append_eq_append_iff.1 h with ⟨x, hx, rfl⟩ | ⟨x, rfl, rfl⟩
  · rcases eq_or_ne x [] with rfl | hne
    · exact ⟨[], by rw [hx, List.append_nil, List.append_nil], rfl⟩
    · -- Otherwise its last character would be one of the blanks.
      have hlast := hu.last_append b (x.getLast hne) (by
        rw [hx, List.getLast?_append_of_ne_nil s hne]
        exact List.getLast?_eq_getLast_of_ne_nil hne)
      have hblank := he _ (List.mem_append_left v (List.getLast_mem hne))
      rw [hlast.1] at hblank
      exact absurd hblank Bool.false_ne_true
  · exact ⟨x, rfl, rfl⟩

/-- Sections that are solid or missing are loose, if what is behind them is. -/
theorem Loose.behind {P Q : List Char → Prop} (hP : Stable P)
    (hsolid : ∀ ⦃u⦄, P u → u = [] ∨ Solid u) (hQ : Loose Q) : Loose (Behind P Q) where
  blanks_append := by
    rintro b _ hb ⟨b', u, v, hb', hu, hv, rfl⟩
    refine ⟨b ++ b', u, v, List.forall_mem_append.2 ⟨hb, hb'⟩, hu, hv, ?_⟩
    simp only [List.append_assoc]
  rewritten := by
    rintro s t e e' h he he' ⟨b, u, v, hb, hu, hv, hs⟩
    rcases hsolid hu with rfl | hsolid
    · -- Without the section, its blanks belong to what is behind.
      rw [List.append_nil] at hs
      have hrest : Q (s ++ e) := hs ▸ hQ.blanks_append hb hv
      exact ⟨[], [], _, Blanks.nil, hu, hQ.rewritten h he he' hrest, rfl⟩
    · obtain ⟨v, rfl, rfl⟩ := hsolid.exists_of_append_eq he hs
      obtain ⟨b', u', v', rfl, hb', hu', hv'⟩ := hsolid.exists_append_behind h
      refine ⟨b', u', v' ++ e', hb'.blanks hb, hP hu hu', hQ.rewritten hv' he he' hv, ?_⟩
      simp only [List.append_assoc]

end Text

/-! ### Rules -/

namespace Rule

variable {s t : List Char} {r : Rule}

/-- A rule is spelled by its condition, its integer samples and its decimal ones, as sections. -/
lemma spells_iff_sections : Rule.Spells s r ↔ ∃ integers decimals,
    r.samples = integers ++ decimals ∧
      Behind (Condition.SpellsOptional · r.condition)
        (Behind (Sample.SpellsAnnotation .integer · integers)
          (Behind (Sample.SpellsAnnotation .decimal · decimals) Blanks)) s := by
  constructor
  · rintro @⟨b₀, p, b₁, u, b₂, v, b₃, c, integers, decimals, hb₀, hc, hb₁, hi, hb₂, hd, hb₃⟩
    have hrest : Behind (Sample.SpellsAnnotation .decimal · decimals) Blanks (b₂ ++ v ++ b₃) :=
      ⟨b₂, v, b₃, hb₂, hd, hb₃, rfl⟩
    refine ⟨integers, decimals, rfl, b₀, p, _, hb₀, hc, ⟨b₁, u, _, hb₁, hi, hrest, rfl⟩, ?_⟩
    simp only [List.append_assoc]
  · obtain ⟨c, samples⟩ := r
    rintro ⟨integers, decimals, rfl, b₀, p, _, hb₀, hc, ⟨b₁, u, _, hb₁, hi, hrest, rfl⟩, rfl⟩
    obtain ⟨b₂, v, b₃, hb₂, hd, hb₃, rfl⟩ := hrest
    simpa only [List.append_assoc] using Rule.Spells.intro hb₀ hc hb₁ hi hb₂ hd hb₃

/-- The texts that spell a rule are loose. -/
theorem loose_spells (r : Rule) : Loose (Rule.Spells · r) := by
  have hsamples : ∀ (kind : SampleKind) (xs : List Sample) {Q : List Char → Prop}, Loose Q →
      Loose (Behind (Sample.SpellsAnnotation kind · xs) Q) := fun kind xs _ hQ =>
    hQ.behind (Sample.stable_spellsAnnotation xs) fun _ h => h.solid
  have hloose : ∀ integers decimals, Loose (Behind (Condition.SpellsOptional · r.condition)
      (Behind (Sample.SpellsAnnotation .integer · integers)
        (Behind (Sample.SpellsAnnotation .decimal · decimals) Blanks))) := fun integers decimals =>
    (hsamples .integer integers (hsamples .decimal decimals loose_blanks)).behind
      (Condition.stable_spellsOptional r.condition) fun _ h => h.solid
  constructor
  · intro b s hb h
    obtain ⟨integers, decimals, hsamples, hs⟩ := spells_iff_sections.1 h
    exact spells_iff_sections.2 ⟨integers, decimals, hsamples,
      (hloose integers decimals).blanks_append hb hs⟩
  · intro s t e e' h he he' hs
    obtain ⟨integers, decimals, hsamples, hs⟩ := spells_iff_sections.1 hs
    exact spells_iff_sections.2 ⟨integers, decimals, hsamples,
      (hloose integers decimals).rewritten h he he' hs⟩

/-- Blanks in front of a rule are passed over. -/
lemma spells_of_blanks_append {b : List Char} (hb : Blanks b) (h : Rule.Spells (b ++ s) r) :
    Rule.Spells s r := by
  rw [← read_eq_ok_iff, Rule.read, dropBlanks_append hb, ← Rule.read, read_eq_ok_iff] at h
  exact h

/-- What spells a rule does so in any other layout. -/
theorem Spells.relaid (h : Rule.Spells s r) (ht : Relaid s t) : Rule.Spells t r := by
  obtain ⟨hb, he, hb', he', hinner⟩ := ht
  rw [List.append_assoc] at h ⊢
  have hinner' := (loose_spells r).rewritten hinner.rewritten he he' (spells_of_blanks_append hb h)
  exact (loose_spells r).blanks_append hb' hinner'

/-- What spells a rule does so with a sign replaced by its words. -/
lemma Spells.respelled (h : Rule.Spells s r) (ht : Respelled s t) : Rule.Spells t r := by
  rw [← List.append_nil s] at h
  rw [← List.append_nil t]
  exact (loose_spells r).rewritten ht.rewritten Blanks.nil Blanks.nil h

/-- What spells a rule does so with any number of signs replaced by their words. -/
theorem Spells.respelled_signs (h : Rule.Spells s r) (ht : Relation.ReflTransGen Respelled s t) :
    Rule.Spells t r := by
  induction ht with
  | refl => exact h
  | tail _ hstep ih => exact ih.respelled hstep

/-- **Layout and spelling do not matter**: a text and the same text in another layout are read as
one rule, or neither of them is read; and a text that is read stays the same rule if any signs in
it, one or many, are replaced by the words that mean the same. -/
theorem ofText_rewritten (s t : String) :
    (Relaid s.toList t.toList →
      (∃ r, Rule.ofText s = .ok r ∧ Rule.ofText t = .ok r) ∨
        ∃ e e', Rule.ofText s = .error e ∧ Rule.ofText t = .error e') ∧
    ∀ r, Rule.ofText s = .ok r → Relation.ReflTransGen Respelled s.toList t.toList →
      Rule.ofText t = .ok r := by
  refine ⟨fun h => ?_, fun r hs h => ?_⟩
  · -- A rule on either side is one on the other side, since layouts can be exchanged both ways.
    have hok : ∀ {u v : String} {r : Rule}, Relaid u.toList v.toList → Rule.ofText u = .ok r →
        Rule.ofText v = .ok r := fun huv hu =>
      ofText_eq_ok_iff.2 ((ofText_eq_ok_iff.1 hu).relaid huv)
    cases hs : Rule.ofText s with
    | ok r => exact .inl ⟨r, rfl, hok h hs⟩
    | error e =>
        cases ht : Rule.ofText t with
        | error e' => exact .inr ⟨e, e', rfl, rfl⟩
        | ok r => exact absurd (hs.symm.trans (hok h.symm ht)) (by simp)
  · exact ofText_eq_ok_iff.2 ((ofText_eq_ok_iff.1 hs).respelled_signs h)

/-- A rule in another layout, and with two of its signs replaced by words. -/
theorem ofText_rewritten_signs :
    (Relaid "n%9 !=1".toList "\tn%9\r\n!=1 ".toList ∧
      Rule.ofText "\tn%9\r\n!=1 " =
        .ok ⟨.atom (Expr.notIn ⟨.n, some ⟨9, by decide⟩⟩ [.single 1]), []⟩) ∧
    Relation.ReflTransGen Respelled "n%9 !=1".toList "n mod 9  not in 1".toList ∧
      Rule.ofText "n mod 9  not in 1" =
        .ok ⟨.atom (Expr.notIn ⟨.n, some ⟨9, by decide⟩⟩ [.single 1]), []⟩ := by
  have hread : Rule.ofText "n%9 !=1" =
      .ok ⟨.atom (Expr.notIn ⟨.n, some ⟨9, by decide⟩⟩ [.single 1]), []⟩ := by decide +kernel
  have hlayout : Relaid "n%9 !=1".toList "\tn%9\r\n!=1 ".toList := by
    have hspace : Gap [' '] := ⟨by decide, by simp⟩
    have hline : Gap ['\r', '\n'] := ⟨by decide, by simp⟩
    have hsign : Regapped "!=1".toList "!=1".toList := .char rfl (.char rfl (.char rfl .nil))
    have hinner : Regapped "n%9 !=1".toList "n%9\r\n!=1".toList :=
      .char rfl (.char rfl (.char rfl (.gap hspace hline hsign)))
    exact Relaid.intro Blanks.nil Blanks.nil (by decide : Blanks ['\t']) hspace.blanks hinner
  have hspelling : Relation.ReflTransGen Respelled "n%9 !=1".toList "n mod 9  not in 1".toList := by
    have hmod : Respelled "n%9 !=1".toList "n mod 9 !=1".toList :=
      .intro (u := ['n']) (v := "9 !=1".toList) .mod (by simp)
    have hnotIn : Respelled "n mod 9 !=1".toList "n mod 9  not in 1".toList :=
      .intro (u := "n mod 9 ".toList) (v := ['1']) .notIn (by simp)
    exact .tail (.single hmod) hnotIn
  refine ⟨⟨hlayout, ?_⟩, hspelling, (ofText_rewritten _ _).2 _ hread hspelling⟩
  rcases (ofText_rewritten _ _).1 hlayout with ⟨r, hr, hr'⟩ | ⟨e, -, he, -⟩
  · rw [hr', ← hr, hread]
  · exact absurd (hread.symm.trans he) (by simp)

end Rule

end PluralRules
