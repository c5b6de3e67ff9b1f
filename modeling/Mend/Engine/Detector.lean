import Mend.Calendar
import Mend.Detection

/-!
# Detectors

The engine takes any detector that is given a file and answers what it detects or why it failed,
after some time has passed. A detector may remember something between its calls.
-/

namespace Mend

/-- The answer of a detector, and the time it took. -/
structure Observation where
  outcome : Except String Detection
  elapsed : Span := 0

/-- A detector with a memory of type `σ`: given the path and the text of a file. -/
structure Detector (σ : Type) where
  detect : String → Text → σ → Observation × σ

namespace Detector

/-- The detector that looks for the patterns of the rules. It takes no time. -/
def patterns (s : DetectorSettings) : Detector Unit where
  detect _ t _ := ({ outcome := .ok (.ofText s t) }, ())

/-- A detector that answers from a list, and with the last answer of the list once it has come to
the end. It remembers the number of its calls. -/
def scripted (answers : List Observation) : Detector Nat where
  detect _ _ calls :=
    ((answers[min calls (answers.length - 1)]?).getD { outcome := .ok {} }, calls + 1)

end Detector

/-- What lies outside the engine: the time, the number of sessions begun so far, and the memory of
the detector. -/
structure Surroundings (σ : Type) where
  now : Instant
  begun : Nat := 0
  memory : σ

namespace Surroundings

variable {σ : Type}

/-- Asks a detector about a file. -/
def observe (w : Surroundings σ) (d : Detector σ) (file : String) (t : Text) :
    Except String Detection × Surroundings σ :=
  let (seen, memory) := d.detect file t w.memory
  (seen.outcome, { w with now := w.now.later seen.elapsed, memory })

/-- Counts one more session. -/
def countSession (w : Surroundings σ) : Surroundings σ := { w with begun := w.begun + 1 }

end Surroundings

end Mend
