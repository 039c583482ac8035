import PluralRules.Reading.Relation
import PluralRules.Rule

/-!
Reading rules.

* `Condition.read`: relations joined by `and`, and these by `or`. A chain of one
  makes no group.
* `Sample.read`, `Sample.readList`: the list after an annotation. A comma belongs
  to the list only if a number follows it; after the list, a comma and an
  ellipsis may stand.
* `Rule.read`: a whole text. The condition is missing where the text ends or an
  annotation starts, and then holds always.
* `Rule.ofText`: the rule that a text spells, or the report of its first fault.
* `check`: a text read as a rule and applied to a number.
-/

namespace PluralRules

open Reading Text

/-! ### Conditions -/

/-- Relations joined by `and`. -/
def Condition.readConjunction : Reader Condition := fun s => do
  let (parts, s) ← chain (connective? "and") Relation.read s
  return (Formula.group .all (parts.map .atom), s)

/-- Conjunctions joined by `or`. -/
def Condition.read : Reader Condition := fun s => do
  let (parts, s) ← chain (connective? "or") Condition.readConjunction s
  return (Formula.group .any parts, s)

/-- A condition, or nothing where the text ends or an annotation starts. -/
def Condition.readOptional : Reader Condition
  | [] => .ok (.always, [])
  | '@' :: s => .ok (.always, '@' :: s)
  | s => Condition.read s

/-! ### Samples -/

/-- A number of a sample. -/
def Operands.read : Reader Operands := fun s =>
  match Numeral.scan? false s with
  | none => stop s (.sample none)
  | some (x, rest) =>
      match Operands.ofNumeral x with
      | .ok o => .ok (o, rest)
      | .error e => stop s (.sample (some e))

/-- A number, or two with a tilde between them. -/
def Sample.read (kind : SampleKind) : Reader Sample := fun s => do
  let (low, s) ← Operands.read s
  match between? (literal? "~") s with
  | none => return (⟨kind, low, none⟩, s)
  | some s => do
      let (high, s) ← Operands.read s
      return (⟨kind, low, some high⟩, s)

/-- A comma that a number of a sample follows. -/
def Sample.comma? : Mark := fun s =>
  (between? (literal? ",") s).filter fun rest => (Operands.read rest).isOk

/-- A comma and an ellipsis, as one character or as three points. -/
def Sample.ellipsis? : Mark := fun s =>
  (between? (literal? ",") s).bind fun rest =>
    literal? "…" rest <|> literal? "..." rest

/-- The samples of one kind after their annotation, or none if it is missing. -/
def Sample.readList (kind : SampleKind) : Reader (List Sample) := fun s =>
  match literal? kind.label s with
  | none => .ok ([], s)
  | some s => do
      let (samples, s) ← chain Sample.comma? (Sample.read kind) (dropBlanks s)
      return (samples, (Sample.ellipsis? s).getD s)

/-! ### Rules -/

/-- A whole rule. -/
def Rule.read (s : List Char) : Except Fault Rule := do
  let (condition, s) ← Condition.readOptional (dropBlanks s)
  let (integers, s) ← Sample.readList .integer (dropBlanks s)
  let (decimals, s) ← Sample.readList .decimal (dropBlanks s)
  match dropBlanks s with
  | [] => return ⟨condition, integers ++ decimals⟩
  | rest => stop rest .leftover

/-- The rule that a text spells. -/
def Rule.ofText (s : String) : Except SyntaxError Rule :=
  (Rule.read s.toList).mapError (SyntaxError.ofFault s.toList)

/-- What can go wrong when a text is read as a rule and applied to a number. -/
inductive RuleError where
  | rule (e : SyntaxError)
  | number (e : NumberError)
  deriving DecidableEq

/-- The wording of either. -/
def RuleError.message : RuleError → String
  | rule e => e.message
  | number e => e.message

/-- The predicate of the rule that a text spells; its samples are dropped. -/
def Predicate.ofText (s : String) : Except RuleError Predicate :=
  ((Rule.ofText s).map Rule.predicate).mapError .rule

/-- Whether a number belongs to what a text describes. The text is looked at
first. -/
def check (rule : String) (x : Number) : Except RuleError Bool := do
  let p ← Predicate.ofText rule
  (p.evaluate x).mapError .number

end PluralRules
