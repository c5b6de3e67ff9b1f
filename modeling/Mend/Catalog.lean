import Mend.Registry

/-!
# The strategies that come with the program

The strategies are listed in the order in which they are registered, each with its words.
-/

namespace Mend

namespace Strategy

variable {κ : Type} [Confidence κ]

/-- A strategy that runs one of the transforms that come with the program. -/
def builtin (id : String) (kind : TransformKind) (name : String) (rules : List String)
    (confidence : κ) (complexity : Complexity) (description : String) : Strategy κ :=
  { id, name, rules, confidence, complexity, transform := kind.transform, description }

/-- The strategies that come with the program, in the order of their registration. -/
def catalog : List (Strategy κ) := [
  builtin "add_error_handling" .addErrorHandling "Add error handling"
    ["missing_error_handling", "async_without_await"] 0.9 .simple
    "Wrap risky awaited code in try/catch",
  builtin "remove_redundant_async" .removeRedundantAsync "Remove redundant async"
    ["async_without_await"] 0.85 .simple "Make functions that never await synchronous",
  builtin "fix_quantum_decoherence" .protectMeasurement "Fix quantum decoherence"
    ["quantum_decoherence_risk"] 0.85 .medium "Protect quantum measurements against decoherence",
  builtin "fix_entanglement_leak" .bindEntanglement "Fix entanglement leak"
    ["quantum_entanglement_leak"] 0.8 .medium "Bind entanglements and add release reminders",
  builtin "replace_console_log" .replaceConsoleLog "Replace console.log"
    ["console_log_in_production"] 0.95 .simple "Replace console.log with a configurable logger",
  builtin "secure_hardcoded_secrets" .externalizeSecrets "Secure hardcoded secrets"
    ["hardcoded_private_keys"] 0.7 .medium "Move secrets to environment variables",
  builtin "fix_superposition_misuse" .collapseSuperposition "Fix superposition misuse"
    ["quantum_superposition_misuse"] 0.75 .complex
    "Correct operations on collapsed superposition states",
  builtin "optimize_imports" .pruneImports "Optimize imports" ["unused_imports"] 0.9 .simple
    "Remove unused named imports",
  builtin "reduce_complexity" .annotateComplexity "Reduce complexity" ["high_complexity"] 0.5
    .complex "Annotate complex functions for manual refactoring",
  builtin "fix_quantum_timing" .deferMeasurement "Fix quantum timing"
    ["quantum_measurement_timing"] 0.8 .medium "Measure only after all quantum operations"]

end Strategy

/-- The registry of the strategies that come with the program. -/
def Registry.standard {κ : Type} [Confidence κ] : Registry κ :=
  Strategy.catalog.foldl (fun r s => (r.register s).toOption.getD r) .empty

end Mend
