import PluralRules.Assembly
import PluralRules.Condition.Json
import PluralRules.Proofs.Grammar.Basic
import PluralRules.Proofs.Grammar.Rule
import PluralRules.Proofs.Grammar.Language
import PluralRules.Proofs.Reading.Basic
import PluralRules.Proofs.Reading.Relation
import PluralRules.Proofs.Reading.Rule
import PluralRules.Proofs.Reading.Obeys
import PluralRules.Proofs.Reading.Fault
import PluralRules.Proofs.Position
import PluralRules.Proofs.Formula
import PluralRules.Proofs.Meaning
import PluralRules.Proofs.RoundTrip
import PluralRules.Proofs.NormalForm
import PluralRules.Proofs.Connectives
import PluralRules.Proofs.Combining
import PluralRules.Proofs.Algebra
import PluralRules.Proofs.Distribution
import PluralRules.Proofs.Joining
import PluralRules.Proofs.Rewriting.Basic
import PluralRules.Proofs.Rewriting.Grammar
import PluralRules.Proofs.Rewriting.Rule
import PluralRules.Proofs.Decoding
import PluralRules.Proofs.Sound
import PluralRules.Proofs.Unchecked
import PluralRules.Proofs.Lowering
import PluralRules.Proofs.NumberText
import PluralRules.Proofs.NumberForms
import PluralRules.Proofs.TrailingZeros
import PluralRules.Proofs.Script.Syntax
import PluralRules.Proofs.Script.Reading
import PluralRules.Proofs.Script.Meaning
import PluralRules.Proofs.Encoding
import PluralRules.Proofs.Derivation
import PluralRules.Proofs.Canonical
