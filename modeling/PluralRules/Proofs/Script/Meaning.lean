import PluralRules.Proofs.Meaning
import PluralRules.Proofs.Script.Reading

/-!
The generated functions decide their conditions.

An expression that is generated for a condition says less than the condition: it asks for an
integer only where a fraction could get in, and it leaves parentheses to the precedence of
operators. Neither makes a difference.

* `Condition.binds_script`: where parentheses were left out, none are needed.
* `Relation.fract_eq_zero_of_range`: where a relation does not ask for an integer, what lies in
  its ranges is one already.
* `Condition.value_script`: the expression of a condition has the truth value of its predicate.
* `Condition.result_source`: so has what is read in the text of the function.
-/

namespace PluralRules

/-! ### Parentheses -/

namespace Script

lemma binds_anyOf {parts : List Script} (h : ∀ x ∈ parts, Binds 1 x) : Binds 0 (anyOf parts) := by
  cases parts with
  | nil => exact (Binds.truth false).mono (by omega)
  | cons x parts =>
      have hx : Binds 0 x := .loosen (h x (by simp))
      exact List.foldlRecOn parts or hx fun y hy z hz => .or hy (h z (by simp [hz]))

lemma binds_allOf {parts : List Script} (h : ∀ x ∈ parts, Binds 2 x) : Binds 1 (allOf parts) := by
  cases parts with
  | nil => exact (Binds.truth true).mono (by omega)
  | cons x parts =>
      have hx : Binds 1 x := .loosen (h x (by simp))
      exact List.foldlRecOn parts and hx fun y hy z hz => .and hy (h z (by simp [hz]))

/-- Two or more parts that are joined get parentheses, one part has its own. -/
lemma binds_enclose {join : List Script → Script} {parts : List Script}
    (hnil : Binds 5 (join [])) (hsingle : ∀ x, join [x] = x) (hjoin : Binds 0 (join parts))
    (h : ∀ x ∈ parts, Binds 5 x) : Binds 5 (enclose join parts) := by
  match parts with
  | [] => exact hnil
  | [x] =>
      have hx : enclose join [x] = x := hsingle x
      rw [hx]
      exact h x (by simp)
  | x :: y :: parts => exact .parenthesized hjoin

end Script

open Script

lemma Expr.binds_script (x : Expr) : Binds 4 x.script := by
  have hoperand : Binds 4 (.operand x.operand) := .loosen (.operand _)
  rw [script]
  cases x.modulus? with
  | none => exact hoperand
  | some m => exact .remainder hoperand (.number _)

lemma Range.binds_script (r : Range) {x : Script} (hx : Binds 4 x) : Binds 1 (r.script x) := by
  have hnumber (y : UInt64) : Binds 4 (.number y.toNat) := .loosen (.number _)
  have hx3 : Binds 3 x := .loosen hx
  rw [script]
  split_ifs
  · have hequal : Binds 2 (.equal x (.number r.low.toNat)) :=
      .equal (.loosen hx3) (.loosen (hnumber _))
    exact .loosen hequal
  · have hlow : Binds 3 (.atLeast x (.number r.low.toNat)) := .atLeast hx3 (hnumber _)
    have hhigh : Binds 3 (.atMost x (.number r.high.toNat)) := .atMost hx3 (hnumber _)
    exact .and (hlow.mono (by omega)) (.loosen hhigh)

namespace Relation

/-- That the value of a relation lies in one of its ranges. -/
def memberScript (r : Relation) : Script :=
  anyOf (r.ranges.map (Range.script r.expr.script))

/-- That the value of a relation is an integer. -/
def integerScript (r : Relation) : Script :=
  .equal (.remainder r.expr.script (.number 1)) (.number 0)

/-- The expression of a relation before it is negated. -/
def bodyScript (r : Relation) : Script :=
  if r.asksForInteger then .and r.integerScript (.parenthesized r.memberScript)
  else r.memberScript

lemma script_eq (r : Relation) :
    r.script = if r.negated then .not (.parenthesized r.bodyScript)
      else .parenthesized r.bodyScript :=
  rfl

lemma binds_memberScript (r : Relation) : Binds 0 r.memberScript := by
  refine binds_anyOf fun x hx => ?_
  obtain ⟨range, -, rfl⟩ := List.mem_map.1 hx
  exact range.binds_script r.expr.binds_script

lemma binds_bodyScript (r : Relation) : Binds 0 r.bodyScript := by
  rw [bodyScript]
  split_ifs
  · have hvalue : Binds 2 (.remainder r.expr.script (.number 1)) :=
      (Binds.remainder r.expr.binds_script (.number 1)).mono (by omega)
    have hinteger : Binds 2 r.integerScript :=
      .equal hvalue ((Binds.number 0).mono (by omega))
    have hmember : Binds 2 (.parenthesized r.memberScript) :=
      (Binds.parenthesized r.binds_memberScript).mono (by omega)
    exact .loosen (.and (.loosen hinteger) hmember)
  · exact r.binds_memberScript

lemma binds_script (r : Relation) : Binds 5 r.script := by
  rw [script_eq]
  split_ifs
  · exact .not (.parenthesized r.binds_bodyScript)
  · exact .parenthesized r.binds_bodyScript

end Relation

/-- Nothing in the expression of a condition lacks parentheses. -/
lemma Condition.binds_script (c : Condition) : Binds 5 (script c) := by
  induction c using Formula.induction with
  | any parts ih =>
      have hparts : ∀ x ∈ parts.map script, Binds 5 x := List.forall_mem_map.2 ih
      rw [script, Formula.fold_any]
      exact binds_enclose (.truth false) (fun _ => rfl)
        (binds_anyOf fun x hx => (hparts x hx).mono (by omega)) hparts
  | all parts ih =>
      have hparts : ∀ x ∈ parts.map script, Binds 5 x := List.forall_mem_map.2 ih
      have hall : Binds 1 (allOf (parts.map script)) :=
        binds_allOf fun x hx => (hparts x hx).mono (by omega)
      rw [script, Formula.fold_all]
      exact binds_enclose (.truth true) (fun _ => rfl) (.loosen hall) hparts
  | atom r =>
      rw [script, Formula.fold_atom]
      exact r.binds_script

/-! ### Values -/

namespace Script

variable {o : Operands}

/-- Joining the parts one after the other has the truth value of joining theirs. -/
lemma value_foldl {α : Type} {join : Script → Script → Script} {op : Bool → Bool → Bool}
    {f : α → Script} {p : α → Bool} {parts : List α}
    (hjoin : ∀ x y, (join x y).value o = Value.onTruths op (x.value o) (y.value o))
    (h : ∀ a ∈ parts, (f a).value o = some (.truth (p a))) {x : Script} {b : Bool}
    (hx : x.value o = some (.truth b)) :
    ((parts.map f).foldl join x).value o = some (.truth ((parts.map p).foldl op b)) := by
  induction parts generalizing x b with
  | nil => exact hx
  | cons a parts ih =>
      have hnext : (join x (f a)).value o = some (.truth (op b (p a))) := by
        rw [hjoin, hx, h a (by simp)]
        rfl
      exact ih (fun a ha => h a (by simp [ha])) hnext

lemma foldl_or (b : Bool) (bs : List Bool) : bs.foldl (· || ·) b = (b || bs.any id) := by
  induction bs generalizing b with
  | nil => simp
  | cons c bs ih => simp [ih, Bool.or_assoc]

lemma foldl_and (b : Bool) (bs : List Bool) : bs.foldl (· && ·) b = (b && bs.all id) := by
  induction bs generalizing b with
  | nil => simp
  | cons c bs ih => simp [ih, Bool.and_assoc]

lemma value_anyOf {α : Type} {f : α → Script} {p : α → Bool} {parts : List α}
    (h : ∀ a ∈ parts, (f a).value o = some (.truth (p a))) :
    (anyOf (parts.map f)).value o = some (.truth (parts.any p)) := by
  cases parts with
  | nil => rfl
  | cons a parts =>
      rw [List.map_cons, anyOf, value_foldl (fun _ _ => rfl) (fun a ha => h a (by simp [ha]))
        (h a (by simp)), foldl_or, List.any_map, List.any_cons]
      rfl

lemma value_allOf {α : Type} {f : α → Script} {p : α → Bool} {parts : List α}
    (h : ∀ a ∈ parts, (f a).value o = some (.truth (p a))) :
    (allOf (parts.map f)).value o = some (.truth (parts.all p)) := by
  cases parts with
  | nil => rfl
  | cons a parts =>
      rw [List.map_cons, allOf, value_foldl (fun _ _ => rfl) (fun a ha => h a (by simp [ha]))
        (h a (by simp)), foldl_and, List.all_map, List.all_cons]
      rfl

lemma value_enclose (join : List Script → Script) (parts : List Script) :
    (enclose join parts).value o = (join parts).value o := by
  match parts with
  | [] | [_] | _ :: _ :: _ => rfl

end Script

/-- Operands are not negative, so taking the remainder takes away whole moduli. -/
lemma Expr.value_script (o : Operands) (x : Expr) : x.script.value o = some (.number (x.value o)) := by
  rw [script, value]
  cases x.modulus? with
  | none => rw [Script.value, o.value_get]
  | some m =>
      have hm : (m.val.toNat : ℚ) ≠ 0 := Nat.cast_ne_zero.2 m.toNat_pos.ne'
      have hquotient : 0 ≤ o.value x.operand / m.val.toNat :=
        div_nonneg (o.value_nonneg _) (Nat.cast_nonneg _)
      simp only [Script.value, Value.onNumbers, Value.remainder, Value.truncate, o.value_get,
        if_neg hm, if_pos hquotient]

lemma Range.value_script {o : Operands} {x : Script} {v : ℚ} (hx : x.value o = some (.number v))
    (r : Range) : (r.script x).value o =
      some (.truth (decide ((r.low.toNat : ℚ) ≤ v ∧ v ≤ r.high.toNat))) := by
  rw [script]
  split_ifs with hsingle
  · rw [isSingle, decide_eq_true_iff] at hsingle
    have hv : v = r.low.toNat ↔ (r.low.toNat : ℚ) ≤ v ∧ v ≤ r.high.toNat := by
      rw [← hsingle, and_comm, le_antisymm_iff]
    simp only [Script.value, hx, Value.compare, Value.onNumbers, hv]
  · simp only [Script.value, hx, Value.compare, Value.onNumbers, Value.onTruths, Bool.decide_and]

namespace Relation

variable {o : Operands} {r : Relation}

lemma value_integerScript (o : Operands) (r : Relation) :
    r.integerScript.value o = some (.truth (decide (Int.fract (r.expr.value o) = 0))) := by
  simp [integerScript, Script.value, r.expr.value_script o, Value.compare, Value.onNumbers,
    Value.remainder, Value.truncate, r.expr.value_nonneg o]

/-- What an `is` or an `in` lists is an integer also where its expression does not ask for one:
either the operand has no fraction, or only single values are listed. -/
lemma fract_eq_zero_of_range (hask : r.asksForInteger = false) (hwithin : r.comparison ≠ .within)
    (his : r.comparison = .is → ∀ x ∈ r.ranges, x.isSingle)
    (hrange : ∃ x ∈ r.ranges, (x.low.toNat : ℚ) ≤ r.expr.value o ∧ r.expr.value o ≤ x.high.toNat) :
    Int.fract (r.expr.value o) = 0 := by
  have hcases : r.expr.operand ≠ .n ∨ ∀ x ∈ r.ranges, x.isSingle := by
    cases hcomparison : r.comparison with
    | is => exact .inr (his hcomparison)
    | within => exact absurd hcomparison hwithin
    | «in» =>
        by_contra! h
        simp [asksForInteger, hcomparison, h.1] at hask
        obtain ⟨x, hx, hsingle⟩ := h.2
        exact hsingle (hask x hx)
  rcases hcases with hoperand | hsingle
  · rw [r.expr.fract_value, o.fract_value hoperand]
  · obtain ⟨x, hx, hlow, hhigh⟩ := hrange
    have hbounds : x.low = x.high := of_decide_eq_true (hsingle x hx)
    rw [← hbounds] at hhigh
    rw [le_antisymm hhigh hlow, Int.fract_natCast]

lemma value_bodyScript {hit : Bool} (hhit : hit = true ↔ r.Hits o)
    (his : r.comparison = .is → ∀ x ∈ r.ranges, x.isSingle) :
    r.bodyScript.value o = some (.truth hit) := by
  let lies : Bool := r.ranges.any fun x =>
    decide ((x.low.toNat : ℚ) ≤ r.expr.value o ∧ r.expr.value o ≤ x.high.toNat)
  have hlies : lies = true ↔
      ∃ x ∈ r.ranges, (x.low.toNat : ℚ) ≤ r.expr.value o ∧ r.expr.value o ≤ x.high.toNat := by
    simp [lies]
  have hmember : r.memberScript.value o = some (.truth lies) :=
    value_anyOf fun x _ => x.value_script (r.expr.value_script o)
  rw [bodyScript]
  split_ifs with hask
  · have hwithin : r.comparison ≠ .within := by
      intro h
      simp [asksForInteger, h] at hask
    have hboth : (decide (Int.fract (r.expr.value o) = 0) && lies) = hit := by
      rw [Bool.eq_iff_iff, Bool.and_eq_true, decide_eq_true_iff, hlies, hhit, r.expr.fract_value]
      exact ⟨fun h => ⟨h.2, fun _ => h.1⟩, fun h => ⟨h.integer hwithin, h.range⟩⟩
    rw [Script.value, Script.value, hmember, value_integerScript, ← hboth]
    rfl
  · have hlist : lies = hit := by
      rw [Bool.eq_iff_iff, hlies, hhit]
      refine ⟨fun h => ⟨h, fun hwithin => ?_⟩, Hits.range⟩
      rw [← r.expr.fract_value]
      exact fract_eq_zero_of_range (by simpa using hask) hwithin his h
    rw [hmember, hlist]

lemma value_script (his : r.comparison = .is → ∀ x ∈ r.ranges, x.isSingle) :
    r.script.value o = some (.truth ((Test.ofRelation r).holds o)) := by
  obtain ⟨hit, hholds, hhit⟩ := Test.exists_hit (o := o) (r := r)
  have hbody := value_bodyScript hhit his
  rw [script_eq, hholds]
  cases r.negated with
  | false => simp [Script.value, hbody]
  | true => simp [Script.value, hbody, Value.negate]

end Relation

namespace Condition

variable {c : Condition}

/-- The expression of a condition has the truth value of its predicate. -/
lemma value_script
    (his : ∀ r ∈ c.atoms, r.comparison = .is → ∀ x ∈ r.ranges, x.isSingle) (o : Operands) :
    (script c).value o = some (.truth ((Predicate.ofCondition c).accepts o)) := by
  rw [Predicate.ofCondition_accepts]
  induction c using Formula.induction with
  | any parts ih =>
      rw [script, Formula.fold_any, value_enclose, Formula.holds_any]
      refine value_anyOf fun part hpart => ih part hpart fun r hr => his r ?_
      rw [Formula.atoms_any]
      exact List.mem_flatMap.2 ⟨part, hpart, hr⟩
  | all parts ih =>
      rw [script, Formula.fold_all, value_enclose, Formula.holds_all]
      refine value_allOf fun part hpart => ih part hpart fun r hr => his r ?_
      rw [Formula.atoms_all]
      exact List.mem_flatMap.2 ⟨part, hpart, hr⟩
  | atom r =>
      rw [script, Formula.fold_atom, Formula.holds_atom]
      exact Relation.value_script (his r (by simp))

-- An `is` that listed a span would let a fraction through.
example :
    let c : Condition := .atom ⟨⟨.n, none⟩, false, .is, [⟨1, 2, by decide⟩]⟩
    let o : Operands := ⟨15, 1, by decide, by decide⟩
    (script c).value o = some (.truth true) ∧ (Predicate.ofCondition c).accepts o = false := by
  decide +kernel

end Condition

/-! ### Functions -/

namespace Condition

-- The characters are taken out of the literal before they are looked at. The default depth is
-- less than their number.
set_option maxRecDepth 4000 in
/-- A function has no other `return` before the one that gives back its expression. -/
lemma not_return_prefix : ∀ t ∈ (preamble.toList ++ [' ', ' ']).tails, t ≠ [] →
    ¬ "return ".toList <+: t ++ "return ".toList := by
  have hreturn : "return ".toList = ['r', 'e', 't', 'u', 'r', 'n', ' '] := rfl
  obtain ⟨front, hpreamble, hfront⟩ : ∃ front, preamble = String.ofList front ∧
      ∀ t ∈ (front ++ [' ', ' ']).tails, t ≠ [] →
        ¬ ['r', 'e', 't', 'u', 'r', 'n', ' '] <+: t ++ ['r', 'e', 't', 'u', 'r', 'n', ' '] :=
    ⟨_, rfl, by decide +kernel⟩
  rw [hpreamble, String.toList_ofList, hreturn]
  exact hfront

lemma returned?_source (c : Condition) :
    returned? (source c).toList = some (script c).print.toList := by
  have hsource : (source c).toList = preamble.toList ++ [' ', ' '] ++
      ("return ".toList ++ ((script c).print.toList ++ ';' :: ['\n', '\x7d'])) := by
    simp [source]
  rw [hsource]
  exact returned?_append not_return_prefix (by simp) _

/-- **Deciding a condition in JavaScript**: what stands behind `return` in the function of a
condition is an expression, and for all operands its value is what the predicate of the
condition accepts. An `is` lists at most one value, as in every condition that is read. -/
theorem result_source {c : Condition}
    (h : ∀ r ∈ c.atoms, r.comparison = .is → r.ranges = [] ∨ ∃ x, r.ranges = [.single x])
    (o : Operands) :
    Script.result o (source c) = some (.truth ((Predicate.ofCondition c).accepts o)) := by
  have hsingle : ∀ r ∈ c.atoms, r.comparison = .is → ∀ x ∈ r.ranges, x.isSingle := by
    intro r hr his
    rcases h r hr his with hranges | ⟨x, hranges⟩ <;> simp [hranges, Range.single, Range.isSingle]
  have hprint : ofChars? (script c).print.toList = some (script c) :=
    ofChars?_print (c.binds_script.mono (by omega))
  rw [Script.result, returned?_source]
  simp only [Option.bind_eq_bind, Option.bind_some, hprint]
  exact value_script hsingle o

/-- A condition with groups in groups, with moduli and spans, for `123.0` and for `123.5`. -/
theorem result_source_nested :
    let c : Condition := .any
      [.all [.atom (Expr.inRanges ⟨.n, some ⟨10, by decide⟩⟩ [⟨2, 4, by decide⟩, .single 7]),
        .atom (Expr.notIn ⟨.i, some ⟨100, by decide⟩⟩ [⟨12, 14, by decide⟩])],
      .all [.any [.atom (Expr.is ⟨.v, none⟩ 2),
          .atom (Expr.within ⟨.f, none⟩ [⟨8, 9, by decide⟩])],
        .atom (Expr.isNot ⟨.w, none⟩ 0)]]
    Script.result ⟨1230, 1, by decide, by decide⟩ (source c) = some (.truth true) ∧
      Script.result ⟨1235, 1, by decide, by decide⟩ (source c) = some (.truth false) := by
  intro c
  have hranges : ∀ r ∈ c.atoms, r.comparison = .is →
      r.ranges = [] ∨ ∃ x, r.ranges = [.single x] := by
    simp [c, Expr.is, Expr.isNot, Expr.inRanges, Expr.notIn, Expr.within]
  exact ⟨(result_source hranges _).trans (by decide +kernel),
    (result_source hranges _).trans (by decide +kernel)⟩

end Condition

end PluralRules
