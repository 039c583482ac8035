import PluralRules.Condition.Script
import PluralRules.Reading.Rule

/-!
Putting conditions together step by step.

An assembly works on a stack of conditions. A step takes conditions from the top
and puts one back, or only looks at the top. A step that cannot be taken leaves
the stack as it was.

* `RelationRequest.relation`: the relation that is asked for by its parts, with
  the first part that is refused: operand, modulus, ranges.
* `Step.apply`: the stack after a step.
* `Stack.run`: the answers of several instructions in turn.
-/

namespace PluralRules

/-- Why a step cannot be taken. -/
inductive StepError where
  | unknownOperand
  | zeroModulus
  | invertedRange
  /-- The stack holds fewer conditions than the step needs. -/
  | stackUnderflow
  | notARelation
  /-- The text to be read is no rule. -/
  | rule (e : SyntaxError)
  deriving DecidableEq

/-- What is to be compared with, unchecked. -/
inductive Comparand where
  | is (value : UInt64)
  | in (bounds : List (UInt64 × UInt64))
  | within (bounds : List (UInt64 × UInt64))
  deriving DecidableEq

/-- The parts of a relation, unchecked. -/
structure RelationRequest where
  operand : String
  modulus? : Option UInt64
  negated : Bool
  comparand : Comparand
  deriving DecidableEq

namespace RelationRequest

/-- What the found part is, or why it was refused. -/
def found {α : Type} (e : StepError) : Option α → Except StepError α
  | some x => .ok x
  | none => .error e

/-- The operand of a text of one letter. -/
def operandOf? (s : String) : Option Operand :=
  match s.toList with
  | [c] => Operand.ofSymbol? c
  | _ => none

/-- The expression that is asked for. -/
def expr (r : RelationRequest) : Except StepError Expr := do
  let operand ← found .unknownOperand (operandOf? r.operand)
  match r.modulus? with
  | none => return ⟨operand, none⟩
  | some x => return ⟨operand, some (← found .zeroModulus (Modulus.ofValue? x))⟩

/-- The ranges of given bounds. -/
def ranges (bounds : List (UInt64 × UInt64)) : Except StepError (List Range) :=
  bounds.mapM fun (low, high) => found .invertedRange (Range.ofBounds? low high)

/-- The relation that is asked for. -/
def relation (r : RelationRequest) : Except StepError Relation := do
  let x ← r.expr
  match r.comparand with
  | .is value => return if r.negated then x.isNot value else x.is value
  | .in bounds => do
      let ranges ← ranges bounds
      return if r.negated then x.notIn ranges else x.inRanges ranges
  | .within bounds => do
      let ranges ← ranges bounds
      return if r.negated then x.notWithin ranges else x.within ranges

end RelationRequest

/-- The conditions that are at work, the top first. -/
abbrev Stack := List Condition

/-- A step that changes the stack. -/
inductive Step where
  /-- Puts a relation on the stack. -/
  | relation (r : RelationRequest)
  /-- Puts the condition that always holds on the stack. -/
  | always
  /-- Puts the condition of a rule on the stack. -/
  | read (rule : String)
  /-- Joins the two conditions on the top. -/
  | and
  | or
  /-- Negates the relation on the top. -/
  | not
  /-- Makes one group of the conditions on the top, which stand in it from the
  lowest up. -/
  | groupAll (count : Nat)
  | groupAny (count : Nat)
  | duplicate
  | swap
  deriving DecidableEq

namespace Step

/-- The stack with one group in place of the conditions on its top. -/
def group (kind : List Condition → Condition) (count : Nat) (stack : Stack) :
    Except StepError Stack :=
  if stack.length < count then .error .stackUnderflow
  else .ok (kind (stack.take count).reverse :: stack.drop count)

/-- The stack after a step. -/
def apply : Step → Stack → Except StepError Stack
  | relation r, stack => do return .atom (← r.relation) :: stack
  | always, stack => .ok (.always :: stack)
  | read rule, stack => do
      let r ← (Rule.ofText rule).mapError .rule
      return r.condition :: stack
  | and, y :: x :: stack => .ok (x.and y :: stack)
  | or, y :: x :: stack => .ok (x.or y :: stack)
  | not, .atom r :: stack => .ok (.atom r.not :: stack)
  | not, _ :: _ => .error .notARelation
  | groupAll count, stack => group .all count stack
  | groupAny count, stack => group .any count stack
  | duplicate, x :: stack => .ok (x :: x :: stack)
  | swap, y :: x :: stack => .ok (x :: y :: stack)
  | _, _ => .error .stackUnderflow

end Step

/-- What to do next: a step, or a look at the top. -/
inductive Instruction where
  | step (s : Step)
  /-- The function that decides the top. -/
  | source
  /-- The verdicts of the top on some numbers. -/
  | decide (numbers : List Number)

/-- What an instruction shows. -/
inductive Answer where
  /-- The top of the changed stack, if it has one. -/
  | top (c? : Option Condition)
  | source (text : String)
  | verdicts (verdicts : List (Except NumberError Bool))

/-- The stack after an instruction, with its answer. -/
def Instruction.run : Instruction → Stack → Except StepError (Stack × Answer)
  | step s, stack => do
      let stack ← s.apply stack
      return (stack, .top stack.head?)
  | source, c :: stack => .ok (c :: stack, .source (Condition.source c))
  | decide numbers, c :: stack =>
      .ok (c :: stack, .verdicts (numbers.map (Predicate.ofCondition c).evaluate))
  | _, [] => .error .stackUnderflow

/-- The answers of several instructions in turn. One that fails leaves the stack
as it was. -/
def Stack.run (stack : Stack) : List Instruction → List (Except StepError Answer)
  | [] => []
  | x :: rest =>
      match x.run stack with
      | .ok (stack, answer) => .ok answer :: run stack rest
      | .error e => .error e :: run stack rest

end PluralRules
