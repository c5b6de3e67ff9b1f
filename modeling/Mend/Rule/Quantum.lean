import Mend.Idiom.Quantum
import Mend.Rule.Basic

/-!
# Rules about quantum operations
-/

namespace Mend.Rule

open Text

/-- Raw measurements, which may collapse the state without protection. -/
def decoherenceRisk : Rule where
  id := "quantum_decoherence_risk"
  title := "Quantum decoherence risk"
  category := .quantum
  severity := .critical
  description := "Operation may cause quantum decoherence"
  suggestion := "Protect the measurement against decoherence or defer it"
  find t := .ok (eachHit Idiom.rawMeasurement t)

/-- Entanglements that are never released. -/
def entanglementLeak : Rule where
  id := "quantum_entanglement_leak"
  title := "Entanglement leak"
  category := .quantum
  severity := .high
  description := "Entanglement is never released"
  suggestion := "Always release entanglements to avoid decoherence"
  find t := .ok (firstHit Idiom.leakedEntanglement t)

/-- Superpositions that are used after they have collapsed. -/
def superpositionMisuse : Rule where
  id := "quantum_superposition_misuse"
  title := "Superposition misuse"
  category := .quantum
  severity := .high
  description := "Collapsed superposition is collapsed or measured again"
  suggestion := "Do not collapse an already collapsed superposition"
  find t := .ok (firstHit Idiom.misusedSuperposition t)

/-- Measurements that come before other quantum operations. -/
def measurementTiming : Rule where
  id := "quantum_measurement_timing"
  title := "Measurement timing"
  category := .quantum
  severity := .medium
  description := "Measurement happens before other quantum operations"
  suggestion := "Measure after all quantum operations"
  find t := .ok (firstHit Idiom.earlyMeasurement t)

/-- Files with more quantum operations than a limit. -/
def quantumDensity (limit : Int) : Rule where
  id := "ai_quantum_density"
  title := "High quantum density"
  category := .quantum
  severity := .medium
  description := "Too many quantum operations concentrated in one file"
  suggestion := "Spread quantum operations out or batch them"
  find t :=
    let density := hitCount Idiom.quantumWord t
    let size := t.count '\n' + 1
    .ok (if density ≤ limit then []
      else [{ evidence := s!"{density} quantum operations in {size} lines".toList }])

end Mend.Rule
