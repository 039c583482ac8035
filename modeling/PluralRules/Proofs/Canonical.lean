import PluralRules.Proofs.RoundTrip
import PluralRules.Proofs.Value

/-!
What is read is canonical.

A rule that is read has a condition of the shape that texts can tell, and nothing in it is made up:
its relations, the ranges that they list and the numbers of its samples stand in the text.

* `Text.Piece`: a piece of a text that stands by itself, known by what is next to it.
* `Grammar.Chain.exists_piece`: each item of a chain is a piece of it.
* `Relation.StandsIn`, `Range.StandsIn`, `Operands.StandsIn`: what stands in the text of a rule.
* `Rule.CanonicalIn`: what is said of a rule that is read from a text.
* `Rule.ofText_canonical`: each rule that is read has this property.
-/

namespace PluralRules

open Grammar Reading Text

/-! ### Pieces of a text -/

namespace Text

variable {previous next s t u : List Char}

lemma Follows.of_blanks (h : Blanks s) : Follows next s := by
  rw [← List.append_nil s]
  exact .blanks_append h .nil

/-- Where the first of two texts is blank, the second one follows. -/
lemma Follows.append {next' : List Char} (hs : Follows next s) (ht : Follows next' t) :
    Follows (next ++ next') (s ++ t) := by
  rw [Follows, dropBlanks, List.dropWhile_append]
  split
  · exact ht.mono (List.subset_append_right next next')
  · rename_i hne
    rw [List.head?_append_of_ne_nil _ (by simpa using hne)]
    exact hs.mono (List.subset_append_left next next')

/-- A piece of a text that stands by itself. Next to it, blanks left out, the text is at its end or
has one of the given characters. -/
inductive Piece (previous next t : List Char) : List Char → Prop where
  | intro {before after : List Char} (left : Follows previous before.reverse)
      (right : Follows next after) : Piece previous next t (before ++ t ++ after)

namespace Piece

lemma refl (t : List Char) : Piece previous next t t := by
  have hsplit := @intro previous next t [] [] .nil .nil
  rwa [List.nil_append, List.append_nil] at hsplit

lemma mono {previous' next' : List Char} (h : Piece previous next t s)
    (hprevious : previous ⊆ previous') (hnext : next ⊆ next') : Piece previous' next' t s := by
  obtain ⟨hleft, hright⟩ := h
  exact .intro (hleft.mono hprevious) (hright.mono hnext)

/-- A piece of a piece has the same next to it, or what is next to the larger piece. -/
lemma trans {previous' next' : List Char} (h : Piece previous next t s)
    (hs : Piece previous' next' s u) : Piece (previous ++ previous') (next ++ next') t u := by
  obtain ⟨hleft, hright⟩ := h
  obtain ⟨hleft', hright'⟩ := hs
  rename_i a b c d
  have hsplit : c ++ (a ++ t ++ b) ++ d = (c ++ a) ++ t ++ (b ++ d) := by
    simp only [List.append_assoc]
  rw [hsplit]
  refine .intro ?_ (hright.append hright')
  rw [List.reverse_append]
  exact hleft.append hleft'

end Piece

/-- Behind a word and blanks, the text before is known by the last character of the word. -/
lemma Follows.reverse_word {word : String} {d : Char} (hword : word.toList.getLast? = some d)
    (hd : isBlank d = false) (hmem : d ∈ previous) (ht : Blanks t) (s : List Char) :
    Follows previous (s ++ word.toList ++ t).reverse := by
  obtain ⟨w, hw⟩ := List.getLast?_eq_some_iff.1 hword
  rw [hw, List.reverse_append, List.reverse_append, List.reverse_append]
  exact .blanks_append (fun c hc => ht c (List.mem_reverse.1 hc)) (.cons hd hmem _)

end Text

/-! ### Items of a chain -/

namespace Grammar

section Chain

variable {α : Type} {mark : List Char → Prop} {item : List Char → α → Prop} {s t : List Char}
  {xs : List α} {previous next : List Char} {word : String} {d : Char}

lemma Around.follows_reverse (h : Around word t) (hword : word.toList.getLast? = some d)
    (hd : isBlank d = false) (hmem : d ∈ previous) (s : List Char) :
    Follows previous (s ++ t).reverse := by
  obtain ⟨-, hafter⟩ := h
  rw [List.append_assoc, ← List.append_assoc, ← List.append_assoc]
  exact .reverse_word hword hd hmem hafter _

lemma Connective.follows_reverse (h : Connective word t) (hword : word.toList.getLast? = some d)
    (hd : isBlank d = false) (hmem : d ∈ previous) (s : List Char) :
    Follows previous (s ++ t).reverse := by
  obtain ⟨hbefore, hafter⟩ := h
  exact Around.follows_reverse (.intro hbefore.blanks hafter.blanks) hword hd hmem s

/-- Behind any text, the items that follow the first one of a chain are pieces. -/
lemma Links.exists_piece (hleft : ∀ t, mark t → ∀ s, Follows previous (s ++ t).reverse)
    (hright : ∀ t, mark t → ∀ s, Follows next (t ++ s)) (h : Links mark item s xs) :
    Follows next s ∧ ∀ x ∈ xs, ∃ t, item t x ∧ ∀ u, Piece previous next t (u ++ s) := by
  induction h with
  | nil => exact ⟨.nil, nofun⟩
  | @cons s t rest x xs hmark hitem _ ih =>
      refine ⟨?_, List.forall_mem_cons.2 ⟨⟨t, hitem, fun u => ?_⟩, fun y hy => ?_⟩⟩
      · rw [List.append_assoc]
        exact hright s hmark _
      · rw [List.append_assoc, ← List.append_assoc, ← List.append_assoc]
        exact .intro (hleft s hmark u) ih.1
      · obtain ⟨v, hv, hpiece⟩ := ih.2 y hy
        refine ⟨v, hv, fun u => ?_⟩
        rw [← List.append_assoc]
        exact hpiece _

/-- Each item of a chain is a piece of it, next to the marks. -/
lemma Chain.exists_piece (previous next : List Char)
    (hleft : ∀ t, mark t → ∀ s, Follows previous (s ++ t).reverse)
    (hright : ∀ t, mark t → ∀ s, Follows next (t ++ s)) (h : Chain mark item s xs) :
    ∀ x ∈ xs, ∃ t, item t x ∧ Piece previous next t s := by
  obtain ⟨hitem, hlinks⟩ := h
  obtain ⟨hrest, hpieces⟩ := hlinks.exists_piece hleft hright
  refine List.forall_mem_cons.2 ⟨⟨_, hitem, ?_⟩, fun x hx => ?_⟩
  · exact @Piece.intro _ _ _ [] _ .nil hrest
  · obtain ⟨t, ht, hpiece⟩ := hpieces x hx
    exact ⟨t, ht, hpiece _⟩

end Chain

end Grammar

/-! ### Relations and ranges -/

-- The characters next to a piece are those that words and signs end with, or start with: `and`,
-- `or`, the comparisons, commas, tildes, and the annotations of samples.

/-- A relation stands in a text, at its ends or between connectives and annotations. The list that
it ends with is the list of its ranges. -/
inductive Relation.StandsIn (r : Relation) (s : List Char) : Prop where
  | intro {t u : List Char} (relation : Piece ['d', 'r'] ['a', 'o', '@'] t s)
      (spells : Relation.Spells t r) (list : Piece ['s', 't', 'n', '='] [] u t)
      (ranges : Range.SpellsList u r.ranges) : Relation.StandsIn r s

/-- A range stands in a text as a whole: no digit and no point is next to it. -/
inductive Range.StandsIn (x : Range) (s : List Char) : Prop where
  | intro {t : List Char} (spells : Range.Spells t x)
      (range : Piece [',', 's', 't', 'n', '=', 'd', 'r'] [',', 'a', 'o', '@'] t s) :
      Range.StandsIn x s

/-- The ranges that stand in a relation stand in the text. -/
lemma Relation.StandsIn.range {r : Relation} {s : List Char} (h : r.StandsIn s) :
    ∀ x ∈ r.ranges, x.StandsIn s := by
  obtain ⟨hrelation, -, hlist, hranges⟩ := h
  intro x hx
  have hpieces := Chain.exists_piece [','] [',']
    (fun t ht => ht.follows_reverse (d := ',') rfl rfl (by simp))
    (fun t ht => ht.follows (d := ',') rfl rfl (by simp)) hranges
  obtain ⟨v, hv, hpiece⟩ := hpieces x hx
  exact .intro hv (hpiece.trans (hlist.trans hrelation))

/-- A comparison ends with the list of its ranges. -/
lemma Comparison.exists_ranges {t : List Char} {negated : Bool} {c : Comparison}
    {ranges : List Range} (h : Comparison.Spells t negated c ranges) :
    ∃ before u, t = before ++ u ∧ Range.SpellsList u ranges ∧
      ∀ s, Follows ['s', 't', 'n', '='] (s ++ before).reverse := by
  cases h with
  | is hafter hnegation hvalue =>
      refine ⟨_, _, (congrArg _ (List.append_nil _)).symm, .intro (.single hvalue) .nil, ?_⟩
      intro s
      cases hnegation with
      | absent =>
          rw [List.append_nil, ← List.append_assoc]
          exact .reverse_word (d := 's') rfl rfl (by simp) hafter.blanks s
      | present hb =>
          rw [← List.append_assoc, ← List.append_assoc]
          exact .reverse_word (d := 't') rfl rfl (by simp) hb.blanks _
  | equal hafter hlist =>
      refine ⟨_, _, rfl, hlist, fun s => ?_⟩
      rw [← List.append_assoc]
      exact .reverse_word (d := '=') rfl rfl (by simp) hafter s
  | notEqual hafter hlist =>
      refine ⟨_, _, rfl, hlist, fun s => ?_⟩
      rw [← List.append_assoc]
      exact .reverse_word (d := '=') rfl rfl (by simp) hafter s
  | membership _ hword hafter hlist =>
      refine ⟨_, _, rfl, hlist, fun s => ?_⟩
      rw [← List.append_assoc, ← List.append_assoc]
      cases hword with
      | «in» => exact .reverse_word (d := 'n') rfl rfl (by simp) hafter.blanks _
      | within => exact .reverse_word (d := 'n') rfl rfl (by simp) hafter.blanks _

/-- So does a relation. -/
lemma Relation.exists_ranges {t : List Char} {r : Relation} (h : Relation.Spells t r) :
    ∃ u, Range.SpellsList u r.ranges ∧ Piece ['s', 't', 'n', '='] [] u t := by
  obtain ⟨-, -, hcomparison, -⟩ := h
  obtain ⟨before, u, rfl, hlist, hbefore⟩ := Comparison.exists_ranges hcomparison
  rename_i o s b m? negated c ranges
  refine ⟨u, hlist, ?_⟩
  have hpiece := @Piece.intro _ [] u _ [] (hbefore (o.symbol :: (s ++ b))) .nil
  simpa only [List.append_nil, List.append_assoc, List.cons_append] using hpiece

/-! ### Conditions -/

namespace Condition

variable {s : List Char} {c : Condition}

/-- The relations of a conjunction are pieces of it. -/
lemma exists_piece_of_spellsConjunction (h : SpellsConjunction s c) :
    ∀ r ∈ c.atoms, ∃ t, Relation.Spells t r ∧ Piece ['d'] ['a'] t s := by
  obtain ⟨rs, hrs, rfl⟩ := spellsConjunction_iff.1 h
  have hatoms : (Formula.group .all (rs.map .atom)).atoms = rs := Formula.atoms_ofAtoms rs
  rw [hatoms]
  exact hrs.exists_piece _ _ (fun t ht => ht.follows_reverse (d := 'd') rfl rfl (by simp))
    (fun t ht => ht.follows (d := 'a') rfl rfl (by simp))

/-- The relations of a condition are pieces of it. -/
lemma exists_piece (h : Condition.SpellsOptional s c) :
    ∀ r ∈ c.atoms, ∃ t, Relation.Spells t r ∧ Piece ['d', 'r'] ['a', 'o'] t s := by
  cases h with
  | absent => simp [Formula.always]
  | present h =>
      obtain ⟨parts, hparts, rfl⟩ := spells_iff.1 h
      have hpieces := hparts.exists_piece ['r'] ['o']
        (fun t ht => ht.follows_reverse (d := 'r') rfl rfl (by simp))
        (fun t ht => ht.follows (d := 'o') rfl rfl (by simp))
      rw [Formula.atoms_group_any]
      intro r hr
      obtain ⟨part, hpart, hmem⟩ := List.mem_flatMap.1 hr
      obtain ⟨t, ht, hpiece⟩ := hpieces part hpart
      obtain ⟨u, hu, hpiece'⟩ := exists_piece_of_spellsConjunction ht r hmem
      exact ⟨u, hu, hpiece'.trans hpiece⟩

end Condition

/-! ### Samples -/

/-- A number stands in a text as a whole, in digits and without a sign. -/
inductive Operands.StandsIn (o : Operands) (s : List Char) : Prop where
  | intro {t : List Char} (spells : Operands.Spells t o)
      (number : Piece ['~', ',', 'r', 'l'] ['~', ',', '@'] t s) : Operands.StandsIn o s

namespace Sample

variable {kind : SampleKind} {s t u : List Char} {x : Sample} {xs : List Sample}

/-- The ends of a sample are pieces of it. -/
lemma exists_piece (h : Sample.Spells kind t x) :
    ∀ o ∈ x.endpoints, ∃ u, Operands.Spells u o ∧ Piece ['~'] ['~'] u t := by
  cases h with
  | value hlow => exact List.forall_mem_singleton.2 ⟨t, hlow, .refl t⟩
  | @span s v u o p hlow htilde hhigh =>
      refine List.forall_mem_cons.2 ⟨⟨s, hlow, ?_⟩, List.forall_mem_singleton.2 ⟨u, hhigh, ?_⟩⟩
      · rw [List.append_assoc]
        exact @Piece.intro _ _ _ [] _ .nil (htilde.follows (d := '~') rfl rfl (by simp) u)
      · rw [← List.append_nil (s ++ v ++ u)]
        exact .intro (htilde.follows_reverse (d := '~') rfl rfl (by simp) s) .nil

/-- The numbers of samples stand in the text behind their annotation. -/
lemma standsIn_of_spellsAnnotation (h : Sample.SpellsAnnotation kind t xs) (hu : Follows ['@'] u) :
    ∀ x ∈ xs, x.kind = kind ∧ ∀ o ∈ x.endpoints, o.StandsIn (s ++ t ++ u) := by
  cases h with
  | absent => exact nofun
  | @present b v xs hb hlist =>
      obtain ⟨hchain, hending⟩ := hlist
      rename_i p e
      have hlabel : Follows ['r', 'l'] (s ++ kind.label.toList ++ b).reverse := by
        cases kind with
        | integer => exact .reverse_word (d := 'r') rfl rfl (by simp) hb s
        | decimal => exact .reverse_word (d := 'l') rfl rfl (by simp) hb s
      have hend : Follows [',', '@'] (e ++ u) := (ending_found hending hu).1
      have hlist : Piece ['r', 'l'] [',', '@'] p
          (s ++ (kind.label.toList ++ b ++ (p ++ e)) ++ u) := by
        simpa only [List.append_assoc] using Piece.intro hlabel hend
      have hpieces := hchain.exists_piece [','] [',']
        (fun t ht => ht.follows_reverse (d := ',') rfl rfl (by simp))
        (fun t ht => ht.follows (d := ',') rfl rfl (by simp))
      intro x hx
      obtain ⟨q, hq, hsample⟩ := hpieces x hx
      refine ⟨by cases hq <;> rfl, fun o ho => ?_⟩
      obtain ⟨n, hn, hnumber⟩ := exists_piece hq o ho
      exact .intro hn ((hnumber.trans (hsample.trans hlist)).mono (by decide) (by decide))

end Sample

/-! ### Rules -/

namespace Rule

/-- A rule is canonical, and what it is made of stands in a text. -/
structure CanonicalIn (r : Rule) (s : List Char) : Prop where
  /-- The condition always holds, or is a disjunction of conjunctions of relations, without a group
  of one part. -/
  condition : r.condition.Canonical
  ranges_ne_nil : ∀ x ∈ r.condition.atoms, x.ranges ≠ []
  single : ∀ x ∈ r.condition.atoms, x.comparison = .is → ∃ value, x.ranges = [.single value]
  /-- The relations are written, each with the list of its ranges. -/
  relations : ∀ x ∈ r.condition.atoms, x.StandsIn s
  /-- No range is put in the place of one that is written, and none has inverted bounds. -/
  ranges : ∀ x ∈ r.condition.atoms, ∀ range ∈ x.ranges, range.StandsIn s ∧ range.low ≤ range.high
  /-- Integer samples come first. -/
  samples : ∃ integers decimals, r.samples = integers ++ decimals ∧
    (∀ x ∈ integers, x.kind = .integer) ∧ ∀ x ∈ decimals, x.kind = .decimal
  /-- Numbers of samples are written without a sign and with a limited number of fraction
  digits. -/
  numbers : ∀ x ∈ r.samples, ∀ o ∈ x.endpoints, o.StandsIn s ∧ 0 ≤ o.n.value ∧ o.v ≤ 28

variable {r : Rule}

/-- The relations of a rule stand in its text. -/
lemma standsIn_of_spells {s : List Char} (h : Rule.Spells s r) :
    ∀ x ∈ r.condition.atoms, x.StandsIn s := by
  obtain ⟨hb₀, hcondition, hb₁, hinteger, hb₂, hdecimal, hb₃⟩ := h
  rename_i b₀ p b₁ t b₂ u b₃ c integers decimals
  have hsamples : Follows ['@'] (t ++ (b₂ ++ (u ++ b₃))) :=
    Sample.follows_of_spellsAnnotation hinteger (.blanks_append hb₂
      (Sample.follows_of_spellsAnnotation hdecimal (.of_blanks hb₃)))
  have hpiece : Piece [] ['@'] p (b₀ ++ p ++ b₁ ++ t ++ b₂ ++ u ++ b₃) := by
    have hleft : Follows [] b₀.reverse := .of_blanks fun c hc => hb₀ c (List.mem_reverse.1 hc)
    have hright : Follows ['@'] (b₁ ++ (t ++ (b₂ ++ (u ++ b₃)))) := .blanks_append hb₁ hsamples
    simpa only [List.append_assoc] using Piece.intro (t := p) hleft hright
  intro x hx
  obtain ⟨q, hq, hrelation⟩ := Condition.exists_piece hcondition x hx
  obtain ⟨list, hranges, hlist⟩ := Relation.exists_ranges hq
  exact .intro (hrelation.trans hpiece) hq hlist hranges

/-- The samples of a rule are those of each kind, and their numbers stand in its text. -/
lemma exists_samples_of_spells {s : List Char} (h : Rule.Spells s r) :
    ∃ integers decimals, r.samples = integers ++ decimals ∧
      (∀ x ∈ integers, x.kind = .integer ∧ ∀ o ∈ x.endpoints, o.StandsIn s) ∧
      ∀ x ∈ decimals, x.kind = .decimal ∧ ∀ o ∈ x.endpoints, o.StandsIn s := by
  obtain ⟨-, -, -, hinteger, hb₂, hdecimal, hb₃⟩ := h
  rename_i b₀ p b₁ t b₂ u b₃ c integers decimals
  have hend : Follows ['@'] b₃ := .of_blanks hb₃
  have hdecimals : Follows ['@'] (b₂ ++ (u ++ b₃)) :=
    .blanks_append hb₂ (Sample.follows_of_spellsAnnotation hdecimal hend)
  refine ⟨integers, decimals, rfl, ?_, Sample.standsIn_of_spellsAnnotation hdecimal hend⟩
  have hstands := Sample.standsIn_of_spellsAnnotation (s := b₀ ++ p ++ b₁) hinteger hdecimals
  simpa only [List.append_assoc] using hstands

/-- **What is read is canonical**: the condition of a rule that is read from a text is a disjunction
of conjunctions of relations without a group of one part, or always holds; each relation has
ranges, and one value if it is made with `is`; integer samples come before decimal ones. All ranges
of a relation and all numbers of samples are those that stand in the text. -/
theorem ofText_canonical {s : String} (h : Rule.ofText s = .ok r) : r.CanonicalIn s.toList := by
  have hspells := ofText_eq_ok_iff.1 h
  have hcanonical := Condition.canonical_of_spellsRule hspells
  have hrelations := standsIn_of_spells hspells
  obtain ⟨integers, decimals, hsplit, hintegers, hdecimals⟩ := exists_samples_of_spells hspells
  exact
    { condition := hcanonical
      ranges_ne_nil := fun x hx => (hcanonical.wellFormed x hx).ranges_ne_nil
      single := fun x hx => (hcanonical.wellFormed x hx).is_single
      relations := hrelations
      ranges := fun x hx range hrange =>
        ⟨(hrelations x hx).range range hrange, range.low_le_high⟩
      samples := ⟨integers, decimals, hsplit, fun x hx => (hintegers x hx).1,
        fun x hx => (hdecimals x hx).1⟩
      numbers := by
        intro x hx o ho
        have hstands : o.StandsIn s.toList := by
          rw [hsplit, List.mem_append] at hx
          exact hx.elim (fun hx => (hintegers x hx).2 o ho) fun hx => (hdecimals x hx).2 o ho
        exact ⟨hstands, o.n_nonneg, o.v_le⟩ }

/-- Two conjunctions, blanks around the points of a range, a zero in front and an ellipsis. -/
theorem ofText_canonical_two_conjunctions :
    ∃ r, Rule.ofText
        " n mod 10 is not 1 and v in 2 .. 4,7 or i within 05@integer 1~21, … @decimal 1.50" =
      .ok r ∧ r.CanonicalIn
        " n mod 10 is not 1 and v in 2 .. 4,7 or i within 05@integer 1~21, … @decimal 1.50".toList ∧
      r = ⟨.any
          [.all [.atom (Expr.isNot ⟨.n, some ⟨10, by decide⟩⟩ 1),
            .atom (Expr.inRanges ⟨.v, none⟩ [⟨2, 4, by decide⟩, .single 7])],
          .atom (Expr.within ⟨.i, none⟩ [.single 5])],
        [⟨.integer, .ofNat 1 (by decide), some (.ofNat 21 (by decide))⟩,
          ⟨.decimal, ⟨150, 2, by decide, by decide⟩, none⟩]⟩ := by
  have hread : Rule.ofText
        " n mod 10 is not 1 and v in 2 .. 4,7 or i within 05@integer 1~21, … @decimal 1.50" =
      .ok ⟨.any
          [.all [.atom (Expr.isNot ⟨.n, some ⟨10, by decide⟩⟩ 1),
            .atom (Expr.inRanges ⟨.v, none⟩ [⟨2, 4, by decide⟩, .single 7])],
          .atom (Expr.within ⟨.i, none⟩ [.single 5])],
        [⟨.integer, .ofNat 1 (by decide), some (.ofNat 21 (by decide))⟩,
          ⟨.decimal, ⟨150, 2, by decide, by decide⟩, none⟩]⟩ := by
    decide +kernel
  exact ⟨_, hread, ofText_canonical hread, rfl⟩

end Rule

end PluralRules
