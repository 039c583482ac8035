import PluralRules.Operands

/-!
Samples: the numbers that a rule lists as examples of itself.

* `Sample`: one number, or the two ends of a span of numbers.
* `Sample.endpoints`, `Sample.text`: its numbers, and how they are written.
-/

namespace PluralRules

/-- The list in which a sample stands. -/
inductive SampleKind where
  | integer
  | decimal
  deriving DecidableEq

/-- The annotation before the samples of a kind. -/
def SampleKind.label : SampleKind → String
  | integer => "@integer"
  | decimal => "@decimal"

/-- A number, or a span of which only the ends are known. -/
structure Sample where
  kind : SampleKind
  low : Operands
  high? : Option Operands
  deriving DecidableEq

namespace Sample

/-- The numbers that a sample names. -/
def endpoints (s : Sample) : List Operands :=
  s.low :: s.high?.toList

/-- A sample in writing. -/
def text (s : Sample) : String :=
  "~".intercalate (s.endpoints.map Operands.text)

end Sample

end PluralRules
