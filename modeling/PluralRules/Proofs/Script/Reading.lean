import PluralRules.Proofs.Grammar.Basic
import PluralRules.Proofs.Script.Syntax

/-!
Expressions are read back from their text.

Printing puts no parentheses of its own. So an expression is read back as it is only if
parentheses stand in it where the precedence of operators asks for them, which is `Binds`.

* `Script.Binds k x`: as an operand of anything looser than level `k`, the expression `x` needs
  no parentheses.
* `Script.ReadsAs`: how such an expression is read where it stands. It is read whole where
  nothing behind it binds as tightly, and if an operator of its own level comes behind it,
  reading goes on with the expression as the first operand.
* `Script.ofChars?_print`: an expression that needs no parentheses is read back.
* `Script.returned?_append`: what a function gives back is found in its text.
-/

namespace PluralRules.Script

open Text Reading Grammar

/-- Parentheses stand where they have to, and the outermost operator belongs to the given level
or a tighter one. -/
inductive Binds : Nat → Script → Prop where
  | or {x y : Script} (left : Binds 0 x) (right : Binds 1 y) : Binds 0 (.or x y)
  | and {x y : Script} (left : Binds 1 x) (right : Binds 2 y) : Binds 1 (.and x y)
  | equal {x y : Script} (left : Binds 2 x) (right : Binds 3 y) : Binds 2 (.equal x y)
  | atLeast {x y : Script} (left : Binds 3 x) (right : Binds 4 y) : Binds 3 (.atLeast x y)
  | atMost {x y : Script} (left : Binds 3 x) (right : Binds 4 y) : Binds 3 (.atMost x y)
  | remainder {x y : Script} (left : Binds 4 x) (right : Binds 5 y) : Binds 4 (.remainder x y)
  | not {x : Script} (part : Binds 5 x) : Binds 5 (.not x)
  | parenthesized {x : Script} (part : Binds 0 x) : Binds 5 (.parenthesized x)
  | truth (b : Bool) : Binds 5 (.truth b)
  | operand (o : Operand) : Binds 5 (.operand o)
  | number (x : Nat) : Binds 5 (.number x)
  | loosen {k : Nat} {x : Script} (tighter : Binds (k + 1) x) : Binds k x

namespace Binds

variable {j k : Nat} {x : Script}

lemma le (h : Binds k x) : k ≤ 5 := by
  induction h with
  | loosen tighter ih => exact Nat.le_of_succ_le ih
  | _ => omega

lemma mono (h : Binds k x) (hjk : j ≤ k) : Binds j x := by
  obtain ⟨d, rfl⟩ := Nat.exists_eq_add_of_le hjk
  induction d generalizing j with
  | zero => exact h
  | succ d ih =>
      have hnext : Binds (j + 1) x := ih (by rwa [Nat.add_right_comm]) (by omega)
      exact .loosen hnext

end Binds

/-! ### What comes behind an expression -/

/-- What can come behind an expression of a level that is read whole: the end of parentheses, or
the first character of a looser operator. -/
def endings (k : Nat) : List Char :=
  ')' :: (Operator.levels.take k).flatMap fun level => level.filterMap (·.sign.toList.head?)

/-- A text that comes behind an expression of a level. -/
def Ends (k : Nat) (rest : List Char) : Prop :=
  Follows (endings k) rest

/-- An operator of a level is found where it stands with blanks around it, and not where
something looser follows. -/
structure Operator.Belongs (k : Nat) (level : List Operator) (op : Operator) : Prop where
  first : ∃ d, op.sign.toList.head? = some d ∧ isBlank d = false ∧ d ∈ endings (k + 1) ∧
    d ∉ endings k
  next?_eq : ∀ s, next? level (' ' :: op.sign.toList ++ ' ' :: s) = some (op, dropBlanks s)

lemma Operator.belongs {k : Nat} {level : List Operator} {op : Operator}
    (hlevel : levels[k]? = some level) (hop : op ∈ level) : Belongs k level op := by
  match k, hlevel with
  | 0, rfl =>
      obtain rfl := List.mem_singleton.1 hop
      exact ⟨⟨'|', by decide⟩, fun _ => rfl⟩
  | 1, rfl =>
      obtain rfl := List.mem_singleton.1 hop
      exact ⟨⟨'&', by decide⟩, fun _ => rfl⟩
  | 2, rfl =>
      obtain rfl := List.mem_singleton.1 hop
      exact ⟨⟨'=', by decide⟩, fun _ => rfl⟩
  | 3, rfl =>
      rcases List.mem_pair.1 hop with rfl | rfl
      · exact ⟨⟨'>', by decide⟩, fun _ => rfl⟩
      · exact ⟨⟨'<', by decide⟩, fun _ => rfl⟩
  | 4, rfl =>
      obtain rfl := List.mem_singleton.1 hop
      exact ⟨⟨'%', by decide⟩, fun _ => rfl⟩

/-- Nothing of a level is found before an ending of it. -/
lemma Ends.next?_eq_none {k : Nat} {level : List Operator} {rest : List Char}
    (h : Ends k rest) (hlevel : Operator.levels[k]? = some level) :
    Operator.next? level rest = none := by
  rw [Operator.next?, List.findSome?_eq_none_iff]
  intro op hop
  obtain ⟨d, hfirst, -, -, hd⟩ := (Operator.belongs hlevel hop).first
  rw [between?_eq_none hfirst h hd, Option.map_none]

lemma Ends.startsAlphanumeric_eq {k : Nat} {rest : List Char} (h : Ends k rest) (hk : k ≤ 5) :
    startsAlphanumeric rest = false := by
  have hendings : ∀ k ≤ 5, (endings k).all (!·.isAlphanum) := by decide
  cases rest with
  | nil => rfl
  | cons c rest =>
      rw [startsAlphanumeric]
      rcases h.head rfl with hblank | hc
      · rcases eq_of_isBlank hblank with rfl | rfl | rfl | rfl <;> decide
      · simpa using List.all_eq_true.1 (hendings k hk) c hc

lemma Ends.mono {k : Nat} {rest : List Char} (h : Ends k rest) (hk : k < 5) :
    Ends (k + 1) rest := by
  have hendings : ∀ k < 5, endings k ⊆ endings (k + 1) := by decide
  exact Follows.mono h (hendings k hk)

/-! ### Reading level by level -/

/-- The reader of expressions of a level and of tighter ones. -/
def scan (k depth : Nat) : Scan :=
  (Operator.levels.drop k).foldr chain (unary depth)

lemma scan_eq_chain {k : Nat} {level : List Operator} (h : Operator.levels[k]? = some level)
    (depth : Nat) : scan k depth = chain level (scan (k + 1) depth) := by
  obtain ⟨hk, rfl⟩ := List.getElem?_eq_some_iff.1 h
  rw [scan, List.drop_eq_getElem_cons hk, List.foldr_cons, scan]

lemma exists_level {k : Nat} (hk : k < 5) : ∃ level, Operator.levels[k]? = some level :=
  ⟨_, List.getElem?_eq_getElem hk⟩

/-- How an expression is read where it stands, if the reader may go deep enough. -/
structure ReadsAs (k : Nat) (x : Script) : Prop where
  /-- It is read whole before an ending. -/
  whole : ∀ {depth rest}, x.print.toList.length ≤ depth → Ends k rest →
    scan k depth (x.print.toList ++ rest) = some (x, rest)
  /-- Before an operator of its own level, reading goes on behind it. -/
  first : ∀ {level depth rest}, Operator.levels[k]? = some level →
    x.print.toList.length ≤ depth → Ends (k + 1) rest → ∃ bound, rest.length ≤ bound ∧
      scan k depth (x.print.toList ++ rest) = more level (scan (k + 1) depth) bound x rest

/-- What is read as a first operand is read whole before an ending. -/
lemma ReadsAs.of_first {k : Nat} {x : Script} (hk : k < 5)
    (first : ∀ {level depth rest}, Operator.levels[k]? = some level →
      x.print.toList.length ≤ depth → Ends (k + 1) rest → ∃ bound, rest.length ≤ bound ∧
        scan k depth (x.print.toList ++ rest) = more level (scan (k + 1) depth) bound x rest) :
    ReadsAs k x where
  whole := by
    intro depth rest hdepth hrest
    obtain ⟨level, hlevel⟩ := exists_level hk
    obtain ⟨bound, -, hread⟩ := first hlevel hdepth (hrest.mono hk)
    rw [hread]
    -- An ending is no operator, so reading stops whether or not the bound is used up.
    cases bound with
    | zero => rw [more]
    | succ bound => rw [more, hrest.next?_eq_none hlevel]
  first := first

/-- A tighter expression is read as a first operand, or whole. -/
lemma ReadsAs.loosen {k : Nat} {x : Script} (hk : k < 5) (h : ReadsAs (k + 1) x) :
    ReadsAs k x := by
  refine .of_first hk fun {level depth rest} hlevel hdepth hrest => ⟨rest.length, le_rfl, ?_⟩
  rw [scan_eq_chain hlevel, chain, h.whole hdepth hrest]
  rfl

/-! ### Words -/

/-- An expression that is written as one word. -/
structure Spells (word : List Char) (x : Script) : Prop where
  ne_nil : word ≠ []
  alphanumeric : ∀ c ∈ word, c.isAlphanum
  ofWord?_eq : ofWord? word = some x

namespace Spells

lemma truth (b : Bool) : Spells (Script.truth b).print.toList (.truth b) := by
  cases b <;> exact ⟨nofun, List.all_eq_true.1 rfl, rfl⟩

lemma operand (o : Operand) : Spells (Script.operand o).print.toList (.operand o) := by
  cases o <;> exact ⟨nofun, List.all_eq_true.1 rfl, rfl⟩

lemma number (x : Nat) : Spells (Script.number x).print.toList (.number x) := by
  have hprint : (Script.number x).print.toList = Nat.toDigits 10 x := by
    rw [print, Nat.toString_eq_repr, Nat.toList_repr]
  rw [hprint]
  refine ⟨Nat.toDigits_ne_nil, fun c hc => ?_, ?_⟩
  · have hdigit : c.isDigit := Nat.isDigit_of_mem_toDigits (by decide) le_rfl hc
    simp [Char.isAlphanum, hdigit]
  · simp only [ofWord?, Nat.ofDigitChars_ten_toDigits, if_pos]

variable {word rest : List Char} {x : Script}

lemma dropBlanks_append (h : Spells word x) (s : List Char) :
    dropBlanks (word ++ s) = word ++ s := by
  obtain ⟨c, word, rfl⟩ := List.exists_cons_of_ne_nil h.ne_nil
  exact dropBlanks_cons (isBlank_eq_false_of_isAlphanum (h.alphanumeric c (by simp))) _

/-- A word is read up to its end. -/
lemma unary_append (h : Spells word x) (hrest : startsAlphanumeric rest = false) (depth : Nat) :
    unary (depth + 1) (word ++ rest) = some (x, rest) := by
  have hstop : rest.takeWhile Char.isAlphanum = [] ∧ rest.dropWhile Char.isAlphanum = rest := by
    cases rest with
    | nil => exact ⟨rfl, rfl⟩
    | cons c rest =>
        have hc : ¬ c.isAlphanum := by simpa [startsAlphanumeric] using hrest
        exact ⟨List.takeWhile_cons_of_neg hc, List.dropWhile_cons_of_neg hc⟩
  have htake : (word ++ rest).takeWhile Char.isAlphanum = word := by
    rw [List.takeWhile_append_of_pos h.alphanumeric, hstop.1, List.append_nil]
  have hdrop : (word ++ rest).dropWhile Char.isAlphanum = rest := by
    rw [List.dropWhile_append_of_pos h.alphanumeric, hstop.2]
  obtain ⟨c, cs, rfl⟩ := List.exists_cons_of_ne_nil h.ne_nil
  have hc : c.isAlphanum := h.alphanumeric c (by simp)
  have hunary : unary (depth + 1) (c :: cs ++ rest) = do
      let x ← ofWord? ((c :: cs ++ rest).takeWhile Char.isAlphanum)
      return (x, (c :: cs ++ rest).dropWhile Char.isAlphanum) := by
    rw [List.cons_append, unary]
    all_goals
      rintro s hs
      rw [(List.cons.inj hs).1] at hc
      exact absurd hc (by decide)
  rw [hunary, htake, hdrop, h.ofWord?_eq]
  rfl

end Spells

/-- No expression starts with a blank. -/
lemma dropBlanks_print_append (x : Script) (s : List Char) :
    dropBlanks (x.print.toList ++ s) = x.print.toList ++ s := by
  induction x generalizing s with
  | truth b => exact (Spells.truth b).dropBlanks_append s
  | operand o => exact (Spells.operand o).dropBlanks_append s
  | number x => exact (Spells.number x).dropBlanks_append s
  | not x | parenthesized x => simp [print, dropBlanks, isBlank]
  | remainder x y hx | equal x y hx | atLeast x y hx | atMost x y hx | and x y hx | or x y hx =>
      simp only [print, String.toList_append, List.append_assoc]
      exact hx _

/-! ### Expressions -/

namespace ReadsAs

variable {x y : Script}

/-- The tightest expressions have no operator of their level. -/
lemma of_unary (hprint : x.print.toList ≠ [])
    (h : ∀ {depth rest}, x.print.toList.length ≤ depth + 1 → Ends 5 rest →
      unary (depth + 1) (x.print.toList ++ rest) = some (x, rest)) : ReadsAs 5 x where
  whole := by
    intro depth rest hdepth hrest
    have hpos := List.length_pos_iff.2 hprint
    obtain ⟨depth, rfl⟩ := Nat.exists_eq_succ_of_ne_zero (hpos.trans_le hdepth).ne'
    exact h hdepth hrest
  first := nofun

lemma word (h : Spells x.print.toList x) : ReadsAs 5 x :=
  .of_unary h.ne_nil fun _ hrest => h.unary_append (hrest.startsAlphanumeric_eq le_rfl) _

lemma not (hx : ReadsAs 5 x) : ReadsAs 5 (.not x) := by
  have hprint : (Script.not x).print.toList = '!' :: x.print.toList := by simp [print]
  refine .of_unary (by simp [hprint]) fun {depth rest} hdepth hrest => ?_
  have hlength : x.print.toList.length ≤ depth := by simpa [hprint] using hdepth
  have hread : unary depth (x.print.toList ++ rest) = some (x, rest) := hx.whole hlength hrest
  rw [hprint, List.cons_append, unary, dropBlanks_print_append, hread]
  rfl

lemma parenthesized (hx : ReadsAs 0 x) : ReadsAs 5 (.parenthesized x) := by
  have hprint : (Script.parenthesized x).print.toList = '(' :: (x.print.toList ++ [')']) := by
    simp [print]
  refine .of_unary (by simp [hprint]) fun {depth rest} hdepth hrest => ?_
  have hlength : x.print.toList.length ≤ depth := by
    simp [hprint] at hdepth
    omega
  have hends : Ends 0 (')' :: rest) := Follows.cons (by decide) (by decide) rest
  have hread : Operator.levels.foldr chain (unary depth) (x.print.toList ++ ')' :: rest) =
      some (x, ')' :: rest) := hx.whole hlength hends
  rw [hprint, List.cons_append, List.append_assoc, List.singleton_append, unary,
    dropBlanks_print_append, hread]
  rfl

/-- Behind its first operand, an operator is read with its second one. -/
lemma join {k : Nat} {level : List Operator} (op : Operator)
    (hlevel : Operator.levels[k]? = some level) (hop : op ∈ level)
    (hprint : (op.join x y).print = x.print ++ (" " ++ op.sign ++ " ") ++ y.print)
    (hx : ReadsAs k x) (hy : ReadsAs (k + 1) y) : ReadsAs k (op.join x y) := by
  have hbelongs := Operator.belongs hlevel hop
  have hk : k < 5 := (List.getElem?_eq_some_iff.1 hlevel).1
  refine .of_first hk fun {level' depth rest} hlevel' hdepth hrest => ?_
  obtain rfl : level = level' := Option.some.inj (hlevel.symm.trans hlevel')
  -- What the first operand is followed by, and what is found there.
  let tail := ' ' :: op.sign.toList ++ ' ' :: (y.print.toList ++ rest)
  have hends : Ends (k + 1) tail := by
    obtain ⟨d, hd, hblank, hmem, -⟩ := hbelongs.first
    change Follows _ ([' '] ++ (op.sign.toList ++ _))
    exact Follows.blanks_append Gap.space.blanks (Follows.word hd hblank hmem _)
  have hnext : Operator.next? level tail = some (op, y.print.toList ++ rest) := by
    rw [hbelongs.next?_eq, dropBlanks_print_append]
  have htext : (op.join x y).print.toList ++ rest = x.print.toList ++ tail := by
    simp [hprint, tail]
  have hsize : (op.join x y).print.toList.length =
      x.print.toList.length + (op.sign.toList.length + y.print.toList.length + 2) := by
    simp [hprint]
    omega
  have hfirst : x.print.toList.length ≤ depth := by omega
  obtain ⟨bound, hbound, hread⟩ := hx.first hlevel hfirst hends
  have hitem : scan (k + 1) depth (y.print.toList ++ rest) = some (y, rest) :=
    hy.whole (by omega) hrest
  have htail : rest.length < tail.length := by
    simp [tail]
    omega
  -- The bound counts characters, and one operator does not use it up.
  obtain ⟨bound, rfl⟩ := Nat.exists_eq_add_of_lt (Nat.zero_lt_of_lt (htail.trans_le hbound))
  rw [Nat.zero_add] at hbound hread
  refine ⟨bound, by omega, ?_⟩
  rw [htext, hread, more, hnext]
  simp only [hitem]
  rfl

end ReadsAs

/-- The levels of `Binds` are those at which expressions are read. -/
lemma Binds.readsAs {k : Nat} {x : Script} (h : Binds k x) : ReadsAs k x := by
  induction h with
  | or _ _ hx hy => exact .join ⟨"||", .or⟩ rfl (by simp) rfl hx hy
  | and _ _ hx hy => exact .join ⟨"&&", .and⟩ rfl (by simp) rfl hx hy
  | equal _ _ hx hy => exact .join ⟨"===", .equal⟩ rfl (by simp) rfl hx hy
  | atLeast _ _ hx hy => exact .join ⟨">=", .atLeast⟩ rfl (by simp) rfl hx hy
  | atMost _ _ hx hy => exact .join ⟨"<=", .atMost⟩ rfl (by simp) rfl hx hy
  | remainder _ _ hx hy => exact .join ⟨"%", .remainder⟩ rfl (by simp) rfl hx hy
  | not _ hx => exact .not hx
  | parenthesized _ hx => exact .parenthesized hx
  | truth b => exact .word (.truth b)
  | operand o => exact .word (.operand o)
  | number x => exact .word (.number x)
  | loosen tighter hx => exact .loosen (Nat.lt_of_succ_le tighter.le) hx

/-- **Reading back an expression**: the text of an expression whose parentheses stand where they
have to is read as that expression, whatever its depth. -/
theorem ofChars?_print {x : Script} (h : Binds 0 x) : ofChars? x.print.toList = some x := by
  have hread : scan 0 x.print.toList.length (x.print.toList ++ []) = some (x, []) :=
    h.readsAs.whole le_rfl Follows.nil
  have hstart : dropBlanks x.print.toList = x.print.toList := by
    simpa using dropBlanks_print_append x []
  rw [List.append_nil, scan, List.drop_zero] at hread
  rw [ofChars?, hstart, hread]
  rfl

/-! ### Functions -/

/-- A word is found where it stands, if it does not start any earlier. -/
lemma findSome?_tails_literal? {word : String} {front : List Char}
    (h : ∀ t ∈ front.tails, t ≠ [] → ¬ word.toList <+: t ++ word.toList) (rest : List Char) :
    (front ++ (word.toList ++ rest)).tails.findSome? (literal? word) = some rest := by
  induction front with
  | nil =>
      have hfound : literal? word (word.toList ++ rest) = some rest := literal?_append word rest
      rw [List.nil_append]
      cases hs : word.toList ++ rest <;> rw [hs] at hfound <;> simp [hfound]
  | cons c front ih =>
      have hfirst : literal? word (c :: (front ++ (word.toList ++ rest))) = none := by
        rw [Option.eq_none_iff_forall_ne_some]
        intro after hafter
        have hword : word.toList <+: c :: front ++ word.toList ++ rest := by
          rw [List.append_assoc, List.cons_append, literal?_eq_some_iff.1 hafter]
          exact List.prefix_append _ _
        have hsize : word.toList.length ≤ (c :: front ++ word.toList).length := by
          rw [List.length_append]
          exact Nat.le_add_left _ _
        exact h (c :: front) (by simp) (by simp)
          (List.prefix_of_prefix_length_le hword (List.prefix_append _ _) hsize)
      have hrest : ∀ t ∈ front.tails, t ≠ [] → ¬ word.toList <+: t ++ word.toList :=
        fun t ht => h t (by simp [ht])
      rw [List.cons_append, List.tails_cons, List.findSome?_cons, hfirst]
      exact ih hrest

/-- What is given back ends at the last semicolon. -/
lemma returned?_append {front after : List Char}
    (hfront : ∀ t ∈ front.tails, t ≠ [] → ¬ "return ".toList <+: t ++ "return ".toList)
    (hafter : ∀ c ∈ after, c ≠ ';') (text : List Char) :
    returned? (front ++ ("return ".toList ++ (text ++ ';' :: after))) = some text := by
  have hdrop : (text ++ ';' :: after).reverse.dropWhile (· ≠ ';') = ';' :: text.reverse := by
    rw [List.reverse_append, List.reverse_cons, List.append_assoc,
      List.dropWhile_append_of_pos fun c hc => by simpa using hafter c (List.mem_reverse.1 hc)]
    rfl
  rw [returned?, findSome?_tails_literal? hfront, Option.map_some, hdrop, List.tail_cons,
    List.reverse_reverse]

end PluralRules.Script
