import PluralRules.Proofs.Reading.Obeys

/-!
Where reading stops.

Each reader of a rule obeys the language of its piece of the grammar without the limits of numbers:
a number that is beyond a limit is refused where it starts, and another one could stand there.

* `Range.obeys_read`, `Comparison.obeys_read`, `Relation.obeys_read`: relations, from integers up.
* `Condition.obeys_read`, `Sample.obeys_readList`: conditions, and the samples of one kind.
* `Rule.leaves_of_read_eq_error`: what stands in front of the fault of a rule can be extended to a
  text with the structure of one.
-/

namespace PluralRules

open Text

open Reading

/-! ### Integers, moduli, ranges -/

section Integers

variable {s : List Char}

lemma Grammar.exists_mem_integer : ∃ t, t ∈ Grammar.integer False :=
  ⟨['0'], by simp, by simp, False.elim⟩

lemma Grammar.startsWord_integer : StartsWord (Grammar.integer False) := by
  rintro t ⟨hne, hdigit, -⟩
  cases t with
  | nil => exact absurd rfl hne
  | cons c t => exact isAlphanum_of_isDigit (hdigit c (by simp))

/-- An integer that is too large is refused at its start, one that a fraction follows behind its
digits. -/
lemma Reading.obeys_integer (role : ValueRole) :
    Obeys (Grammar.integer False) s (Reading.integer role s) := by
  have hstart := Leaves.start Grammar.exists_mem_integer s
  rw [Reading.integer]
  simp only
  by_cases hnil : s.takeWhile Char.isDigit = []
  · rw [if_pos hnil]
    exact .stop hstart
  · have hdigits : Leaves (Grammar.integer False) s (s.dropWhile Char.isDigit) :=
      ⟨s.takeWhile Char.isDigit, ⟨hnil, fun c => Numeral.isDigit_of_mem_takeWhile, False.elim⟩,
        List.takeWhile_append_dropWhile⟩
    rw [if_neg hnil]
    split_ifs
    · exact .stop (hdigits.mono Grammar.le_prefixes)
    · exact .ok hdigits
    · exact .stop hstart

/-- Without limits, a modulus is an integer. -/
lemma Grammar.modulus_eq : Grammar.modulus False = Grammar.integer False := by
  ext t
  exact ⟨fun h => h.1, fun h => ⟨h, False.elim⟩⟩

lemma Modulus.obeys_read : Obeys (Grammar.modulus False) s (Modulus.read s) := by
  have hinteger : Obeys (Grammar.integer False) s (Reading.integer .modulus s) := obeys_integer _
  rw [Grammar.modulus_eq]
  refine .steps hinteger.stops fun {x rest} heq => ?_
  simp only
  cases Modulus.ofValue? x with
  | none => exact .stop (.start Grammar.exists_mem_integer s)
  | some m => exact .ok (hinteger.leaves heq)

namespace Range

lemma integer_le_range : Grammar.integer False ≤ Grammar.range False :=
  le_self_add

/-- Without limits, two integers make a span whatever their order. -/
lemma bounds_le_range : Grammar.integer False * (Grammar.around ".." * Grammar.integer False) ≤
    Grammar.range False := by
  rintro _ ⟨s, hs, _, ⟨t, ht, u, hu, rfl⟩, rfl⟩
  exact .inr ⟨s, hs, t, ht, u, hu, List.append_assoc s t u, False.elim⟩

/-- Inverted bounds are refused at the start of the second one. -/
lemma obeys_readUpper (low : UInt64) : Obeys (Grammar.integer False) s (readUpper low s) := by
  have hhigh : Obeys (Grammar.integer False) s (Reading.integer .upperBound s) := obeys_integer _
  refine .steps hhigh.stops fun {high rest} heq => ?_
  simp only
  split_ifs
  · exact .ok (hhigh.leaves heq)
  · exact .stop (.start Grammar.exists_mem_integer s)

lemma obeys_read : Obeys (Grammar.range False) s (Range.read s) := by
  have hlow : Obeys (Grammar.integer False) s (Reading.integer .plain s) := obeys_integer _
  refine .steps (hlow.mono integer_le_range).stops fun {low u} heq => ?_
  have hfirst := hlow.leaves heq
  cases hpoints : between? (literal? "..") u with
  | none =>
      simp only [hpoints]
      exact .ok (hfirst.mono integer_le_range)
  | some v =>
      simp only [hpoints]
      have hhigh := obeys_readUpper (s := v) low
      refine (Obeys.behind hfirst (.behind (.around hpoints) ?_)).mono bounds_le_range
      exact .steps hhigh.stops fun heq => .ok (hhigh.leaves heq)

lemma obeys_readList : Obeys (Grammar.ranges False) s (Range.readList s) :=
  .chain (fun hcomma => .behind (.around hcomma) obeys_read) obeys_read

end Range

end Integers

/-! ### Texts to go on with

Where a reader has to find something, it could find a text of the language. -/

namespace Grammar

lemma exists_mem_items {mark item : Language Char} (h : ∃ t, t ∈ item) :
    ∃ t, t ∈ items mark item := by
  obtain ⟨t, ht⟩ := h
  exact ⟨t ++ [], Language.append_mem_mul ht (Language.nil_mem_kstar _)⟩

lemma exists_mem_ranges : ∃ t, t ∈ ranges False := by
  obtain ⟨t, ht⟩ := exists_mem_integer
  exact exists_mem_items ⟨t, .inl ht⟩

/-- The shortest comparison starts with a sign, so it can touch an operand. -/
lemma exists_comparison : ∃ t, startsAlphanumeric t = false ∧ t ∈ comparison False := by
  obtain ⟨t, ht⟩ := exists_mem_ranges
  refine ⟨"=".toList ++ [] ++ t, rfl, .inl (.inl (.inr ?_))⟩
  exact Language.append_mem_mul (Language.append_mem_mul rfl Blanks.nil) ht

lemma exists_relation (o : Operand) : ∃ t, o.symbol :: t ∈ relation False := by
  obtain ⟨t, hstart, ht⟩ := exists_comparison
  have hnil : [] ∈ reduction False := .inl rfl
  refine ⟨[] ++ [] ++ t, o, _, ?_, hstart, rfl⟩
  exact Language.append_mem_mul (Language.append_mem_mul hnil (mem_blanks_iff.2 .nil)) ht

end Grammar

/-! ### Expressions and comparisons -/

section Comparisons

variable {s u v : List Char}

lemma Grammar.startsWord_modulus : StartsWord (Grammar.modulus False) := by
  rw [Grammar.modulus_eq]
  exact Grammar.startsWord_integer

lemma Grammar.startsWord_ranges : StartsWord (Grammar.ranges False) := by
  refine StartsWord.mul ?_
  rintro t (ht | ⟨s, hs, u, -, v, -, rfl, -⟩)
  · exact Grammar.startsWord_integer t ht
  · rw [List.append_assoc]
    exact (Grammar.startsWord_integer.mul (m := ⊤)) _ ⟨s, hs, _, trivial, rfl⟩

/-- A modulus behind its mark. -/
lemma Modulus.obeys_mark (h : Modulus.mark? u = some v) :
    Obeys (Grammar.modulusMark * Grammar.modulus False) u (Modulus.read v) := by
  obtain ⟨w, hw, rfl⟩ := Option.map_eq_some_iff.1 h
  rw [Grammar.modulusMark, add_mul]
  rcases (Option.orElse_eq_some _ _ _).1 hw with hmod | ⟨-, hpercent⟩
  · have hfront := (Leaves.blanks u).mul (.keyword hmod)
    have hend := (keyword?_eq_some_iff.1 hmod).2
    have hgap := Obeys.gap hend Grammar.startsWord_modulus Modulus.obeys_read
    rw [mul_assoc (_ * _)]
    exact (Obeys.behind hfront hgap).mono le_self_add
  · have hsign : between? (literal? "%") u = some (dropBlanks w) := by
      rw [between?, hpercent, Option.map_some]
    exact (Obeys.behind (.around hsign) Modulus.obeys_read).mono le_add_self

/-- What stands between an operand and its comparison. -/
lemma Expr.obeys_read {o : Operand} (hu : startsAlphanumeric u = false) :
    Obeys (Grammar.reduction False) u (Expr.read (o.symbol :: u)) := by
  have hoperand : Operand.read (o.symbol :: u) = .ok (o, u) := Operand.read_eq_ok_iff.2 ⟨rfl, hu⟩
  rw [Expr.read, hoperand]
  refine Obeys.steps (r := .ok (o, u)) (fun heq => absurd heq (by simp)) fun heq => ?_
  obtain ⟨rfl, rfl⟩ : o = _ ∧ u = _ := by simpa using heq
  cases hmark : Modulus.mark? u with
  | none =>
      simp only [hmark]
      exact .ok (.nil (.inl rfl) u)
  | some v =>
      simp only [hmark]
      refine .map ((Modulus.obeys_mark hmark).mono le_add_self) ?_
      exact fun m rest => ⟨⟨o, some m⟩, rfl⟩

/-- What a comparison is made with. -/
def Grammar.compared : Comparison → Language Char
  | .is => Grammar.integer False
  | .in => Grammar.ranges False
  | .within => Grammar.ranges False

lemma Comparison.obeys_readRanges (c : Comparison) :
    Obeys (Grammar.compared c) s (c.readRanges s) := by
  cases c with
  | is =>
      rw [readRanges]
      refine .map (obeys_integer .plain) ?_
      exact fun x rest => ⟨[.single x], rfl⟩
  | «in» => exact Range.obeys_readList
  | within => exact Range.obeys_readList

lemma dropBlanks_skipNot (hs : dropBlanks s = s) :
    dropBlanks (skipNot s).2 = (skipNot s).2 := by
  rw [skipNot]
  cases keyword? "not" s with
  | none => exact hs
  | some u => exact dropBlanks_dropBlanks u

namespace Comparison

variable {α : Type} {k : Bool × Comparison → Reader α}
  (hk : ∀ p s, Obeys (Grammar.compared p.2) s (k p s))

include hk

/-- A membership, and the ranges that are read behind its word. A longer word that starts with
`within` is refused behind that start. -/
lemma obeys_readMembership :
    Obeys (Grammar.negation * ((Grammar.word "in" + Grammar.word "within") *
      (Grammar.gap * Grammar.ranges False))) s
      (readMembership s >>= fun p => k p.1 (dropBlanks p.2)) := by
  have hwords : StartsWord (Grammar.word "in" + Grammar.word "within") := by
    rintro t (rfl | rfl) <;> rfl
  have hranges : ∃ t, t ∈ Grammar.gap * Grammar.ranges False := by
    obtain ⟨t, ht⟩ := Grammar.exists_mem_ranges
    exact ⟨[' '] ++ t, Language.append_mem_mul Gap.space ht⟩
  have hmembership : ∃ t, t ∈ (Grammar.word "in" + Grammar.word "within") *
      (Grammar.gap * Grammar.ranges False) := by
    obtain ⟨t, ht⟩ := hranges
    exact ⟨"in".toList ++ t, Language.append_mem_mul (.inl rfl) ht⟩
  -- Behind either word, the ranges.
  have hbehind : ∀ {negated c u rest}, c ≠ .is →
      Leaves (Grammar.word "in" + Grammar.word "within") u rest →
      startsAlphanumeric rest = false →
      Obeys ((Grammar.word "in" + Grammar.word "within") * (Grammar.gap * Grammar.ranges False)) u
        (k (negated, c) (dropBlanks rest)) := by
    intro negated c u rest hc hfront hend
    have hread : Obeys (Grammar.ranges False) (dropBlanks rest)
        (k (negated, c) (dropBlanks rest)) := by
      cases c with
      | is => exact absurd rfl hc
      | «in» => exact hk (negated, .in) (dropBlanks rest)
      | within => exact hk (negated, .within) (dropBlanks rest)
    exact .behind hfront (.gap hend Grammar.startsWord_ranges hread)
  refine .negation hwords.mul ?_
  rw [readMembership]
  simp only
  generalize (skipNot s).1 = negated, (skipNot s).2 = u
  cases hin : keyword? "in" u with
  | some rest =>
      have hfront : Leaves (Grammar.word "in" + Grammar.word "within") u rest :=
        (Leaves.keyword hin).mono le_self_add
      exact hbehind (by decide) hfront (keyword?_eq_some_iff.1 hin).2
  | none =>
      cases hwithin : literal? "within" u with
      | none => exact .stop (.start hmembership u)
      | some rest =>
          have hfront : Leaves (Grammar.word "in" + Grammar.word "within") u rest :=
            (Leaves.literal hwithin).mono le_add_self
          simp only
          split_ifs with hend
          · exact .stop ((hfront.mono Grammar.le_prefixes).prefixes_mul hranges)
          · exact hbehind (by decide) hfront (by simpa using hend)

/-- A comparison, and what is read behind it. -/
lemma obeys_read :
    Obeys (Grammar.comparison False) s
      (Comparison.read s >>= fun p => k p.1 (dropBlanks p.2)) := by
  rw [Comparison.read, Grammar.comparison]
  cases his : keyword? "is" s with
  | some rest =>
      have hread : Obeys (Grammar.integer False) (skipNot (dropBlanks rest)).2
          (k ((skipNot (dropBlanks rest)).1, .is) (dropBlanks (skipNot (dropBlanks rest)).2)) := by
        rw [dropBlanks_skipNot (dropBlanks_dropBlanks rest)]
        exact hk (_, .is) _
      have hvalue := Obeys.gap (keyword?_eq_some_iff.1 his).2 Grammar.startsWord_integer.negation
        (.negation Grammar.startsWord_integer hread)
      refine (Obeys.behind (.keyword his) hvalue).mono ?_
      rw [← mul_assoc, ← mul_assoc]
      exact le_self_add.trans (le_self_add.trans le_self_add)
  | none =>
      cases hne : literal? "!=" s with
      | some rest =>
          have hranges : Obeys (Grammar.ranges False) (dropBlanks rest)
              (k (true, .in) (dropBlanks rest)) := hk (true, .in) _
          refine (Obeys.behind (.literal hne) (.behind (.blanks rest) hranges)).mono ?_
          rw [← mul_assoc]
          exact le_add_self.trans le_self_add
      | none =>
          cases heq : literal? "=" s with
          | some rest =>
              have hranges : Obeys (Grammar.ranges False) (dropBlanks rest)
                  (k (false, .in) (dropBlanks rest)) := hk (false, .in) _
              refine (Obeys.behind (.literal heq) (.behind (.blanks rest) hranges)).mono ?_
              rw [← mul_assoc]
              exact le_add_self.trans (le_self_add.trans le_self_add)
          | none =>
              refine (obeys_readMembership hk).mono ?_
              rw [← mul_assoc, ← mul_assoc]
              exact le_add_self

end Comparison

end Comparisons

/-! ### Relations and conditions -/

section Conditions

variable {s : List Char}

namespace Relation

lemma startsWord_relation : StartsWord (Grammar.relation False) := by
  rintro _ ⟨o, t, -, -, rfl⟩
  cases o <;> rfl

/-- Behind an operand that no letter or digit touches, the rest of a relation. Where nothing of it
was read, it can start with a sign. -/
lemma obeys_behind_operand {α : Type} {o : Operand} {u : List Char}
    {r : Except Fault (α × List Char)} (hu : startsAlphanumeric u = false)
    (h : Obeys (Grammar.reduction False * Grammar.blanks * Grammar.comparison False) u r) :
    Obeys (Grammar.relation False) (o.symbol :: u) r := by
  have hapart : ∀ {t rest}, t ++ rest = u → startsAlphanumeric t = false := by
    rintro t rest rfl
    cases t with
    | nil => rfl
    | cons c t => exact hu
  constructor
  · intro x rest heq
    obtain ⟨t, ht, hrest⟩ := h.leaves heq
    exact ⟨o.symbol :: t, ⟨o, t, ht, hapart hrest, rfl⟩, by rw [List.cons_append, hrest]⟩
  · intro e heq
    obtain ⟨t, ⟨v, hv⟩, hrest⟩ := h.stops heq
    refine ⟨o.symbol :: t, ?_, by rw [List.cons_append, hrest]⟩
    cases t with
    | nil => exact Grammar.exists_relation o
    | cons c t =>
        have hstart : startsAlphanumeric (c :: t ++ v) = false := by
          rw [startsAlphanumeric_append (List.cons_ne_nil c t)]
          exact hapart hrest
        exact ⟨v, o, _, hv, hstart, rfl⟩

/-- A letter that is no operand is refused where it stands, a longer word behind its first
letter. -/
lemma leaves_of_operand_eq_error {e : Fault} (h : Operand.read s = .error e) :
    Leaves (Grammar.prefixes (Grammar.relation False)) s e.remaining := by
  have hrelation : ∃ t, t ∈ Grammar.relation False := by
    obtain ⟨t, ht⟩ := Grammar.exists_relation .n
    exact ⟨_, ht⟩
  cases s with
  | nil =>
      obtain rfl : (⟨[], .operand⟩ : Fault) = e := Except.error.inj h
      exact .start hrelation []
  | cons c s =>
      cases hc : Operand.ofSymbol? c with
      | none =>
          simp only [Operand.read, hc] at h
          obtain rfl : (⟨c :: s, .operand⟩ : Fault) = e := Except.error.inj h
          exact .start hrelation (c :: s)
      | some o =>
          simp only [Operand.read, hc] at h
          split_ifs at h
          obtain rfl : (⟨s, .operand⟩ : Fault) = e := Except.error.inj h
          rw [Operand.ofSymbol?_eq_some_iff.1 hc]
          exact ⟨[o.symbol], Grammar.exists_relation o, rfl⟩

lemma obeys_read : Obeys (Grammar.relation False) (dropBlanks s) (Relation.read s) := by
  cases hoperand : Operand.read (dropBlanks s) with
  | error e =>
      have hread : Relation.read s = .error e := by
        rw [Relation.read, Expr.read, hoperand]
        rfl
      rw [hread]
      exact .error (leaves_of_operand_eq_error hoperand)
  | ok p =>
      obtain ⟨hs, hu⟩ := Operand.read_eq_ok_iff.1 hoperand
      rw [hs]
      refine obeys_behind_operand hu ?_
      rw [Relation.read, hs, mul_assoc]
      refine .bind (Expr.obeys_read hu) ?_ fun {x rest} _ => ?_
      · obtain ⟨t, -, ht⟩ := Grammar.exists_comparison
        exact ⟨[] ++ t, Language.append_mem_mul (Grammar.mem_blanks_iff.2 .nil) ht⟩
      · have hranges : ∀ (p : Bool × Comparison) s, Obeys (Grammar.compared p.2) s
            (p.2.readRanges s >>= fun q =>
              (.ok (⟨x, p.1, p.2, q.1⟩, q.2) : Except Fault (Relation × List Char))) := by
          intro p s
          exact .map (Comparison.obeys_readRanges p.2) fun ranges rest => ⟨_, rfl⟩
        exact .behind (.blanks rest) (Comparison.obeys_read hranges)

end Relation

namespace Condition

lemma startsWord_conjunction : StartsWord (Grammar.conjunction False) :=
  Relation.startsWord_relation.mul

lemma obeys_readConjunction :
    Obeys (Grammar.conjunction False) (dropBlanks s) (readConjunction s) := by
  refine .map ?_ fun rs rest => ⟨_, rfl⟩
  exact .chain (fun hand => .connective hand Relation.startsWord_relation Relation.obeys_read)
    Relation.obeys_read

lemma obeys_read : Obeys (Grammar.condition False) (dropBlanks s) (Condition.read s) := by
  refine .map ?_ fun parts rest => ⟨_, rfl⟩
  exact .chain (fun hor => .connective hor startsWord_conjunction obeys_readConjunction)
    obeys_readConjunction

lemma obeys_readOptional (hs : dropBlanks s = s) :
    Obeys (1 + Grammar.condition False) s (readOptional s) := by
  unfold readOptional
  split
  · exact .ok (.nil (.inl rfl) [])
  · exact .ok (.nil (.inl rfl) _)
  · have hread : Obeys (Grammar.condition False) (dropBlanks s) (Condition.read s) := obeys_read
    rw [hs] at hread
    exact hread.mono le_add_self

end Condition

end Conditions

/-! ### Samples -/

section Samples

variable {s : List Char} {kind : SampleKind}

lemma Grammar.exists_mem_number : ∃ t, t ∈ Grammar.number False :=
  ⟨_, .ofScaled false 0 0, rfl, rfl, False.elim⟩

/-- A number that has no operands is refused at its start. -/
lemma Operands.obeys_read : Obeys (Grammar.number False) s (Operands.read s) := by
  have hstart := Leaves.start Grammar.exists_mem_number s
  rw [Operands.read]
  cases hscan : Numeral.scan? false s with
  | none => exact .stop hstart
  | some p =>
      obtain ⟨x, rest⟩ := p
      obtain ⟨hsign, hs⟩ := Numeral.eq_append_of_scan? hscan
      have hnumber : Leaves (Grammar.number False) s rest := by
        refine ⟨x.chars, ⟨x, hsign, rfl, False.elim⟩, ?_⟩
        rw [hs, Numeral.chars, hsign]
        rfl
      simp only
      cases Operands.ofNumeral x with
      | ok o => exact .ok hnumber
      | error e => exact .stop hstart

namespace Sample

lemma obeys_read : Obeys (Grammar.sample False) s (Sample.read kind s) := by
  have hlow : Obeys (Grammar.number False) s (Operands.read s) := Operands.obeys_read
  refine .steps (hlow.mono le_self_add).stops fun {low u} heq => ?_
  have hfirst := hlow.leaves heq
  cases htilde : between? (literal? "~") u with
  | none =>
      simp only [htilde]
      exact .ok (hfirst.mono le_self_add)
  | some v =>
      simp only [htilde]
      have hsecond := Obeys.behind (.around htilde) (Operands.obeys_read (s := v))
      rw [Grammar.sample, mul_assoc]
      refine .map ((Obeys.behind hfirst hsecond).mono le_add_self) ?_
      exact fun high rest => ⟨⟨kind, low, some high⟩, rfl⟩

lemma obeys_readChain :
    Obeys (Grammar.items (Grammar.around ",") (Grammar.sample False)) s
      (chain Sample.comma? (Sample.read kind) s) :=
  .chain (fun hcomma => .behind (.around (comma?_eq_some_iff.1 hcomma).1) obeys_read) obeys_read

lemma leaves_ending : Leaves Grammar.ending s ((Sample.ellipsis? s).getD s) := by
  obtain ⟨t, ht, hs⟩ := exists_ending s
  exact ⟨t, Grammar.mem_ending_iff.2 ht, hs.symm⟩

lemma obeys_readList : Obeys (Grammar.samples False kind) s (Sample.readList kind s) := by
  rw [Sample.readList]
  cases hlabel : literal? kind.label s with
  | none => exact .ok (.nil (.inl rfl) s)
  | some u =>
      have hlist : Obeys (Grammar.items (Grammar.around ",") (Grammar.sample False) *
          Grammar.ending) (dropBlanks u) (chain Sample.comma? (Sample.read kind) (dropBlanks u) >>=
            fun p => .ok (p.1, (Sample.ellipsis? p.2).getD p.2)) :=
        .bind obeys_readChain ⟨[], .inl rfl⟩ fun _ => .ok leaves_ending
      have hfront := (Leaves.literal hlabel).mul (.blanks u)
      exact (Obeys.behind hfront hlist).mono le_add_self

end Sample

end Samples

/-! ### Rules -/

/-- What stands in front of the fault of a rule can be extended to a text with the structure of
one. -/
theorem Rule.leaves_of_read_eq_error {s : List Char} {e : Fault} (h : Rule.read s = .error e) :
    Leaves (Grammar.prefixes (Grammar.rule False)) s e.remaining := by
  have hcondition : Obeys (Grammar.blanks * (1 + Grammar.condition False)) s
      (Condition.readOptional (dropBlanks s)) :=
    .behind (.blanks s) (Condition.obeys_readOptional (dropBlanks_dropBlanks s))
  have hsamples : ∀ u kind, Obeys (Grammar.blanks * Grammar.samples False kind) u
      (Sample.readList kind (dropBlanks u)) :=
    fun u kind => .behind (.blanks u) Sample.obeys_readList
  -- Samples may be missing, so a text may end behind each part.
  have hnone : ∀ kind, [] ∈ Grammar.blanks * Grammar.samples False kind :=
    fun kind => ⟨[], .nil, [], .inl rfl, rfl⟩
  have hdecimals : [] ∈ Grammar.blanks * Grammar.samples False .decimal * Grammar.blanks :=
    ⟨[], hnone .decimal, [], .nil, rfl⟩
  have hintegers : [] ∈ Grammar.blanks * Grammar.samples False .integer *
      (Grammar.blanks * Grammar.samples False .decimal * Grammar.blanks) :=
    ⟨[], hnone .integer, [], hdecimals, rfl⟩
  have hrule : Grammar.rule False = Grammar.blanks * (1 + Grammar.condition False) *
      (Grammar.blanks * Grammar.samples False .integer *
        (Grammar.blanks * Grammar.samples False .decimal * Grammar.blanks)) := by
    simp only [Grammar.rule, mul_assoc]
  rw [hrule]
  simp only [Rule.read, bind_eq_error, Prod.exists] at h
  rcases h with hc | ⟨c, u, hc, hi | ⟨integers, v, hi, hd | ⟨decimals, w, hd, hend⟩⟩⟩
  · exact (hcondition.stops hc).prefixes_mul ⟨[], hintegers⟩
  · refine (hcondition.leaves hc).mul_prefixes ?_
    exact ((hsamples u .integer).stops hi).prefixes_mul ⟨[], hdecimals⟩
  · refine (hcondition.leaves hc).mul_prefixes (((hsamples u .integer).leaves hi).mul_prefixes ?_)
    exact ((hsamples v .decimal).stops hd).prefixes_mul ⟨[], .nil⟩
  · have hall := (hcondition.leaves hc).mul (((hsamples u .integer).leaves hi).mul
      (((hsamples v .decimal).leaves hd).mul (.blanks w)))
    cases hrest : dropBlanks w with
    | nil => simp [hrest, pure, Except.pure] at hend
    | cons a rest =>
        simp only [hrest] at hend
        obtain rfl : (⟨a :: rest, .leftover⟩ : Fault) = e := Except.error.inj hend
        rw [hrest] at hall
        exact hall.mono Grammar.le_prefixes

end PluralRules
