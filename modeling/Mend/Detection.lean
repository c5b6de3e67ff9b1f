import Mend.Metrics
import Mend.Rule.Hygiene
import Mend.Rule.Quantum

/-!
# Detection

All rules that are not ignored look through a file. A rule that fails reports nothing and keeps no
other rule from reporting. Issues are listed by severity, and in the order of the rules and of the
text within one severity.
-/

namespace Mend

/-- Which rules look through a file, and the limits of those that have one. -/
structure DetectorSettings where
  /-- The rules that are left out. -/
  ignore : List String := []
  /-- The most branches that a function may have. -/
  maxBranches : Int := 10
  /-- The most quantum operations that a file may have. -/
  quantumDensity : Int := 10
  deriving DecidableEq, Repr

/-- What was detected in a file. -/
structure Detection where
  issues : List Issue := []
  metrics : Metrics := {}
  deriving DecidableEq, Repr

namespace Rule

/-- All rules, in the order in which they look through a file. -/
def catalog (s : DetectorSettings) : List Rule :=
  [decoherenceRisk, asyncWithoutAwait, entanglementLeak, consoleLogging, hardcodedKeys,
    superpositionMisuse, unusedImports, highComplexity s.maxBranches, missingErrorHandling,
    measurementTiming, quantumDensity s.quantumDensity]

/-- The rules that are not ignored. -/
def active (s : DetectorSettings) : List Rule :=
  (catalog s).filter fun r => !s.ignore.contains r.id

/-- The issues that a rule reports, none if it fails. -/
def reported (t : Text) (r : Rule) : List Issue :=
  match r.run t with
  | .ok issues => issues
  | .error _ => []

end Rule

namespace Detection

/-- Lists issues by severity and keeps the order within one severity. -/
def bySeverity (issues : List Issue) : List Issue :=
  issues.mergeSort fun a b => a.severity.rank ≤ b.severity.rank

/-- What the given rules detect in a text. -/
def ofRules (rules : List Rule) (t : Text) : Detection :=
  let issues := bySeverity (rules.flatMap (Rule.reported t))
  { issues, metrics := .compute t issues }

/-- What is detected in a text. -/
def ofText (s : DetectorSettings) (t : Text) : Detection := ofRules (Rule.active s) t

end Detection

end Mend
