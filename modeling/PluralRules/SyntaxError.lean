import PluralRules.Number

/-!
What is wrong with a text that is no rule.

Reading stops at the first fault. The fault says what was expected, and what was
left of the text there; the error that is reported gives the place as an offset
in bytes and quotes the word that stands there.

* `Complaint`, `Complaint.wording`: what can be wrong, and how it is put.
* `Fault`: a complaint, and what is left of the text.
* `SyntaxError.ofFault`, `SyntaxError.message`: the report of a fault.
-/

namespace PluralRules

/-- What a value in a rule is for. -/
inductive ValueRole where
  /-- A value to compare with, or the lower bound of a range. -/
  | plain
  | modulus
  | upperBound
  deriving DecidableEq

/-- What is wrong at some place of a rule. -/
inductive Complaint where
  /-- No operand stands here. -/
  | operand
  /-- No comparison follows the expression. -/
  | comparison
  /-- No integer stands here, or one of more than 64 bits. -/
  | value (role : ValueRole) (tooLarge : Bool)
  | zeroModulus
  /-- The upper bound that starts here is below its lower bound. -/
  | invertedRange
  /-- No number of a sample stands here, or one that has no operands. -/
  | sample (cause? : Option NumberError)
  /-- The rule should end here. -/
  | leftover
  deriving DecidableEq

/-- The parts of which the description of a complaint is made. -/
structure Wording where
  invalid? : Option String
  expected : List String
  cause? : Option String

/-- The parts that are there, in their order. -/
def Wording.text (w : Wording) : String :=
  let invalid := w.invalid?.toList.map ("invalid " ++ ·)
  let expected :=
    if w.expected = [] then [] else ["expected " ++ ", ".intercalate w.expected]
  match invalid ++ expected ++ w.cause?.toList with
  | [] => "unexpected input"
  | parts => "; ".intercalate parts

namespace Complaint

/-- Why a value that stands there was refused. -/
def sizeCause? (tooLarge : Bool) : Option String :=
  if tooLarge then some "number too large to fit in target type" else none

/-- How a complaint is put. -/
def wording : Complaint → Wording
  | operand => ⟨none, ["operand (n, i, v, w, f, t)"], none⟩
  | comparison => ⟨none, ["'is', 'in', 'within', '=' or '!='"], none⟩
  | value .plain tooLarge => ⟨none, ["non-negative integer"], sizeCause? tooLarge⟩
  | value .modulus tooLarge =>
      ⟨some "modulus", ["non-negative integer", "integer of at least 1"],
        sizeCause? tooLarge⟩
  | value .upperBound tooLarge =>
      ⟨some "range", ["non-negative integer"], sizeCause? tooLarge⟩
  | zeroModulus => ⟨some "modulus", ["integer of at least 1"], none⟩
  | invertedRange => ⟨some "range", [], none⟩
  | sample cause? => ⟨none, ["sample number"], cause?.map NumberError.message⟩
  | leftover => ⟨none, [], none⟩

end Complaint

/-- A complaint, with what is left of the text at its place. -/
structure Fault where
  remaining : List Char
  complaint : Complaint
  deriving DecidableEq

/-- The report that a text is no rule. -/
structure SyntaxError where
  /-- The place of the fault, in bytes from the start of the text. -/
  position : Nat
  complaint : Complaint
  /-- The word at that place; with none, nothing but white space is left. -/
  word? : Option String
  deriving DecidableEq

-- The sum starts at the zero of core, also where other structures have one.
attribute [local instance(high)] Zero.ofOfNat0

/-- The length of a text in bytes. -/
def Text.byteLength (s : List Char) : Nat :=
  (s.map Char.utf8Size).sum

namespace SyntaxError

/-- The report of a fault in a text. -/
def ofFault (s : List Char) (fault : Fault) : SyntaxError where
  position := Text.byteLength s - Text.byteLength fault.remaining
  complaint := fault.complaint
  word? := (Text.firstWord? fault.remaining).map String.ofList

/-- What is wrong, and at which word. -/
def detail (e : SyntaxError) : String :=
  let place :=
    match e.word? with
    | some word => " at '" ++ word ++ "'"
    | none => " at end of rule"
  e.complaint.wording.text ++ place

/-- The whole report. -/
def message (e : SyntaxError) : String :=
  "syntax error at offset " ++ toString e.position ++ ": " ++ e.detail

end SyntaxError

end PluralRules
