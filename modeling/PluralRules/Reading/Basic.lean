import PluralRules.SyntaxError

/-!
Readers, and what they look ahead for.

A reader takes what it reads from the front of a text and gives back the rest,
or it stops with a fault. Whether an optional part of the grammar is there is
decided beforehand, by a *mark*: a function that finds the part's first word and
gives back what follows it. Once its mark is found, a part has to be read; a
fault in it is a fault of the whole text.

* `literal?`, `keyword?`, `connective?`, `between?`: the marks.
* `chain`: one or more items with a mark between any two. The text that follows
  the first bounds the number of marks, since each takes a character away.
-/

namespace PluralRules.Reading

open PluralRules.Text

/-- A function that reads something from the front of a text. -/
abbrev Reader (α : Type) :=
  List Char → Except Fault (α × List Char)

/-- A function that looks for a mark at the front of a text. -/
abbrev Mark :=
  List Char → Option (List Char)

/-- Stops reading with a complaint about what is left of the text. -/
def stop {α : Type} (remaining : List Char) (complaint : Complaint) :
    Except Fault α :=
  .error ⟨remaining, complaint⟩

/-! ### Marks -/

/-- The given word. -/
def literal? (word : String) : Mark := fun s =>
  word.toList.isPrefixOf? s

theorem literal?_eq_some_iff {word : String} {s rest : List Char} :
    literal? word s = some rest ↔ s = word.toList ++ rest := by
  rw [literal?]
  generalize word.toList = w
  induction w generalizing s with
  | nil => exact Option.some_inj
  | cons c w ih =>
      cases s with
      | nil => exact ⟨nofun, nofun⟩
      | cons d s =>
          change (if c == d then w.isPrefixOf? s else none) = some rest ↔ _
          by_cases h : c = d
          · simp [h, ih]
          · simp [h, Ne.symm h]

/-- Whether a text goes on with an ASCII letter or digit. -/
def startsAlphanumeric : List Char → Bool
  | [] => false
  | c :: _ => c.isAlphanum

/-- The given word, as a whole word. -/
def keyword? (word : String) : Mark := fun s =>
  match literal? word s with
  | some rest => if startsAlphanumeric rest then none else some rest
  | none => none

theorem keyword?_eq_some_iff {word : String} {s rest : List Char} :
    keyword? word s = some rest ↔
      s = word.toList ++ rest ∧ startsAlphanumeric rest = false := by
  rw [← literal?_eq_some_iff, keyword?]
  cases h : literal? word s with
  | none => simp
  | some t => cases ht : startsAlphanumeric t <;> grind

/-- A keyword with blanks before it. -/
def connective? (word : String) : Mark := fun s =>
  if s.head?.any isBlank then keyword? word (dropBlanks s) else none

/-- A mark, with or without blanks before and after it. -/
def between? (mark : Mark) : Mark := fun s =>
  (mark (dropBlanks s)).map dropBlanks

/-! ### Chains -/

section Chain

variable {α : Type}

/-- The items that follow the first, at most as many as a bound has
characters. -/
def more (mark : Mark) (item : Reader α) : List Char → Reader (List α)
  | [], s => .ok ([], s)
  | _ :: bound, s =>
      match mark s with
      | none => .ok ([], s)
      | some s => do
          let (x, s) ← item s
          let (xs, s) ← more mark item bound s
          return (x :: xs, s)

/-- One or more items, with a mark between any two. -/
def chain (mark : Mark) (item : Reader α) : Reader (List α) := fun s => do
  let (x, s) ← item s
  let (xs, s) ← more mark item s s
  return (x :: xs, s)

end Chain

end PluralRules.Reading
