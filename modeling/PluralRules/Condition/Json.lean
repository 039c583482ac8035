import PluralRules.Condition.RuleText
import PluralRules.Json

/-!
Conditions as JSON.

A group is an object whose only member names its kind, a relation one whose only
member is `Relation`. A relation, an expression and a range have fields. They
are objects, whose members stand in any order and may be among others, or lists
with one item for each field. Reading visits them in their order and stops at
the first fault, such as a field that comes twice; what is missing is noticed at
the end.

* `Json.members`, `Json.readStructure`: the fields of a value, and what is read
  from them.
* `Condition.toJson`, `Condition.ofJson`: a condition as JSON, and back.
* `JsonError.message?`: only inverted bounds have a wording of their own.
-/

namespace PluralRules

-- Powers are those of core, also where monoids have them.
attribute [local instance(high)] instPowNat

/-- Why a JSON value is no condition. -/
inductive JsonError where
  | inverted (low high : UInt64)
  /-- Something is missing or of another form. -/
  | malformed
  deriving DecidableEq

/-- The wording of a refusal, if it has one. -/
def JsonError.message? : JsonError → Option String
  | inverted low high =>
      some
        ("range " ++ toString low.toNat ++ ".." ++ toString high.toNat ++
          " is inverted")
  | malformed => none

namespace Json

/-- An integer of 64 bits. -/
def ofWord (x : UInt64) : Json :=
  .integer x.toNat

/-- The integer of 64 bits that a value is. -/
def toWord : Json → Except JsonError UInt64
  | .integer (.ofNat x) =>
      if x < 2 ^ (64 : Nat) then .ok (.ofNat x) else .error .malformed
  | _ => .error .malformed

/-- The truth value that a value is. -/
def toBool : Json → Except JsonError Bool
  | .bool b => .ok b
  | _ => .error .malformed

/-- The name that a value is. A name can also stand as the only member of an
object, with `null`. -/
def toName : Json → Except JsonError String
  | .text s => .ok s
  | .object [(s, .null)] => .ok s
  | _ => .error .malformed

/-- The items of a list. -/
def toList : Json → Except JsonError (List Json)
  | .list items => .ok items
  | _ => .error .malformed

/-! ### Structures -/

/-- The members of a value: those of an object, or the items of a list, each
under the name that has its place. -/
def members (names : List String) : Json → List (String × Json)
  | .object members => members
  | .list items => names.zip items
  | _ => []

/-- Whether a value can have fields of some names: an object, or a list with one
item for each of them. -/
def isStructure (names : List String) : Json → Bool
  | .object _ => true
  | .list items => items.length = names.length
  | _ => false

/-- Reads members one after the other into a draft. None of the given names may
come twice; those that have come are kept. -/
def readMembers {D : Type} (names : List String)
    (add : D → String × Json → Except JsonError D) :
    List String → D → List (String × Json) → Except JsonError D
  | _, d, [] => .ok d
  | seen, d, m :: members =>
      if m.1 ∈ seen then .error .malformed
      else do
        let d ← add d m
        readMembers names add (if m.1 ∈ names then m.1 :: seen else seen) d members

/-- Reads the fields of a value into a draft. The length of a list is looked at
when its items have been read. -/
def readStructure {D : Type} (names : List String)
    (add : D → String × Json → Except JsonError D) (start : D) (j : Json) :
    Except JsonError D := do
  let d ← readMembers names add [] start (j.members names)
  if j.isStructure names then return d else .error .malformed

/-- What has been found of a structure, or that it is missing. -/
def required {α : Type} : Option α → Except JsonError α
  | some x => .ok x
  | none => .error .malformed

end Json

/-! ### Operands and expressions -/

/-- The name of an operand. -/
def Operand.toJson : Operand → Json
  | .n => .text "N"
  | .i => .text "I"
  | .v => .text "V"
  | .w => .text "W"
  | .f => .text "F"
  | .t => .text "T"

/-- The operand that a value names. -/
def Operand.ofJson (j : Json) : Except JsonError Operand := do
  match ← j.toName with
  | "N" => return .n
  | "I" => return .i
  | "V" => return .v
  | "W" => return .w
  | "F" => return .f
  | "T" => return .t
  | _ => .error .malformed

/-- A modulus, with `null` for none. -/
def Modulus.toJson : Option Modulus → Json
  | none => .null
  | some m => .ofWord m.val

/-- The modulus that a value is, or none. -/
def Modulus.ofJson : Json → Except JsonError (Option Modulus)
  | .null => .ok none
  | j => do
      let x ← j.toWord
      match Modulus.ofValue? x with
      | some m => return some m
      | none => .error .malformed

/-- An expression as JSON. -/
def Expr.toJson (x : Expr) : Json :=
  .object [("operand", x.operand.toJson), ("modulus", Modulus.toJson x.modulus?)]

/-- The fields of an expression. -/
def Expr.fields : List String :=
  ["operand", "modulus"]

/-- What has been read of an expression. A modulus that is missing is none. -/
structure Expr.Draft where
  operand? : Option Operand := none
  modulus? : Option Modulus := none

/-- Reads one more member of an expression. -/
def Expr.Draft.add (d : Draft) : String × Json → Except JsonError Draft
  | ("operand", j) => do return { d with operand? := some (← Operand.ofJson j) }
  | ("modulus", j) => do return { d with modulus? := ← Modulus.ofJson j }
  | _ => .ok d

/-- The expression that a value is. -/
def Expr.ofJson (j : Json) : Except JsonError Expr := do
  let d ← j.readStructure fields Draft.add {}
  return ⟨← Json.required d.operand?, d.modulus?⟩

/-! ### Ranges -/

/-- A range as JSON. -/
def Range.toJson (r : Range) : Json :=
  .object [("low", .ofWord r.low), ("high", .ofWord r.high)]

/-- The fields of a range. -/
def Range.fields : List String :=
  ["low", "high"]

/-- What has been read of a range. -/
structure Range.Draft where
  low? : Option UInt64 := none
  high? : Option UInt64 := none

/-- Reads one more member of a range. -/
def Range.Draft.add (d : Draft) : String × Json → Except JsonError Draft
  | ("low", j) => do return { d with low? := some (← j.toWord) }
  | ("high", j) => do return { d with high? := some (← j.toWord) }
  | _ => .ok d

/-- The range that a value is. -/
def Range.ofJson (j : Json) : Except JsonError Range := do
  let d ← j.readStructure fields Draft.add {}
  let low ← Json.required d.low?
  let high ← Json.required d.high?
  match Range.ofBounds? low high with
  | some r => return r
  | none => .error (.inverted low high)

/-! ### Relations -/

/-- A comparison as JSON. -/
def Comparison.toJson : Comparison → Json
  | .is => .text "Is"
  | .in => .object [("InSet", .text "In")]
  | .within => .object [("InSet", .text "Within")]

/-- The comparison that a value is. -/
def Comparison.ofJson : Json → Except JsonError Comparison
  | .object [("InSet", j)] => do
      match ← j.toName with
      | "In" => return .in
      | "Within" => return .within
      | _ => .error .malformed
  | j => do
      match ← j.toName with
      | "Is" => return .is
      | _ => .error .malformed

/-- A relation as JSON. -/
def Relation.toJson (r : Relation) : Json :=
  .object
    [("expr", r.expr.toJson), ("negated", .bool r.negated), ("kind", r.comparison.toJson),
      ("ranges", .list (r.ranges.map Range.toJson))]

/-- The fields of a relation. -/
def Relation.fields : List String :=
  ["expr", "negated", "kind", "ranges"]

/-- What has been read of a relation. -/
structure Relation.Draft where
  expr? : Option Expr := none
  negated? : Option Bool := none
  comparison? : Option Comparison := none
  ranges? : Option (List Range) := none

/-- Reads one more member of a relation. -/
def Relation.Draft.add (d : Draft) : String × Json → Except JsonError Draft
  | ("expr", j) => do return { d with expr? := some (← Expr.ofJson j) }
  | ("negated", j) => do return { d with negated? := some (← j.toBool) }
  | ("kind", j) => do return { d with comparison? := some (← Comparison.ofJson j) }
  | ("ranges", j) => do
      return { d with ranges? := some (← (← j.toList).mapM Range.ofJson) }
  | _ => .ok d

/-- The relation that a value is. -/
def Relation.ofJson (j : Json) : Except JsonError Relation := do
  let d ← j.readStructure fields Draft.add {}
  return ⟨← Json.required d.expr?, ← Json.required d.negated?,
    ← Json.required d.comparison?, ← Json.required d.ranges?⟩

/-! ### Conditions -/

namespace Condition

/-- A condition as JSON. -/
def toJson (c : Condition) : Json :=
  c.fold (fun parts => .object [("Or", .list parts)])
    (fun parts => .object [("And", .list parts)])
    fun r => .object [("Relation", r.toJson)]

mutual

/-- The condition that a value is. -/
def ofJson : Json → Except JsonError Condition
  | .object [("Or", .list items)] => do return .any (← ofJsonEach items)
  | .object [("And", .list items)] => do return .all (← ofJsonEach items)
  | .object [("Relation", j)] => do return .atom (← Relation.ofJson j)
  | _ => .error .malformed

/-- The conditions that several values are. -/
def ofJsonEach : List Json → Except JsonError (List Condition)
  | [] => return []
  | j :: js => do return (← ofJson j) :: (← ofJsonEach js)

end

end Condition

end PluralRules
