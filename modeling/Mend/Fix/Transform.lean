import Mend.Fix.Control
import Mend.Fix.Hygiene
import Mend.Fix.Quantum

/-!
# The transforms

A transform takes a text and the issue to repair in it, and answers with a fix or gives up. It sees
nothing else, so that its answer depends on nothing else.
-/

namespace Mend

/-- Repairs an issue in a text. -/
abbrev Transform := Text → Issue → Except FixError Fix

/-- The transforms that come with the program. -/
inductive TransformKind
  | addErrorHandling
  | removeRedundantAsync
  | protectMeasurement
  | bindEntanglement
  | replaceConsoleLog
  | externalizeSecrets
  | collapseSuperposition
  | pruneImports
  | annotateComplexity
  | deferMeasurement
  deriving DecidableEq, Repr

namespace TransformKind

/-- All transforms. -/
def all : List TransformKind :=
  [addErrorHandling, removeRedundantAsync, protectMeasurement, bindEntanglement, replaceConsoleLog,
    externalizeSecrets, collapseSuperposition, pruneImports, annotateComplexity, deferMeasurement]

/-- The word for a transform. -/
def name : TransformKind → String
  | addErrorHandling => "add_error_handling"
  | removeRedundantAsync => "remove_redundant_async"
  | protectMeasurement => "protect_measurement"
  | bindEntanglement => "bind_entanglement"
  | replaceConsoleLog => "replace_console_log"
  | externalizeSecrets => "externalize_secrets"
  | collapseSuperposition => "collapse_superposition"
  | pruneImports => "prune_imports"
  | annotateComplexity => "annotate_complexity"
  | deferMeasurement => "defer_measurement"

/-- The transform of that name. -/
def ofName? (s : String) : Option TransformKind := all.find? (·.name == s)

/-- What a transform does. -/
def transform : TransformKind → Transform
  | addErrorHandling => fun t i => .ok (Fix.addErrorHandling t i)
  | removeRedundantAsync => fun t i => .ok (Fix.removeRedundantAsync t i)
  | protectMeasurement => fun t i => .ok (Fix.protectMeasurement t i)
  | bindEntanglement => Fix.bindEntanglement
  | replaceConsoleLog => fun t i => .ok (Fix.replaceConsoleLog t i)
  | externalizeSecrets => fun t i => .ok (Fix.externalizeSecrets t i)
  | collapseSuperposition => fun t i => .ok (Fix.collapseSuperposition t i)
  | pruneImports => fun t i => .ok (Fix.pruneImports t i)
  | annotateComplexity => fun t i => .ok (Fix.annotateComplexity t i)
  | deferMeasurement => fun t i => .ok (Fix.deferMeasurement t i)

end TransformKind

end Mend
