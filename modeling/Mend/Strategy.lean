import Mend.Confidence
import Mend.Fix.Transform
import Mend.Text.Quoted

/-!
# Strategies

A strategy repairs issues of certain rules by a transform, with a certain confidence.
-/

namespace Mend

/-- A way to repair the issues of some rules. -/
structure Strategy (κ : Type) where
  id : String
  name : String
  /-- The rules whose issues it repairs. -/
  rules : List String
  confidence : κ
  complexity : Complexity
  transform : Transform
  description : String := ""

/-- A transform that was given up, and why. -/
structure StrategyFailure where
  strategy : String
  rule : String
  cause : FixError
  deriving DecidableEq, Repr

/-- The words for a transform that was given up. -/
def StrategyFailure.message (f : StrategyFailure) : String :=
  "Strategy " ++ Text.quoted f.strategy ++ " failed on " ++ Text.quoted f.rule ++ ": "
    ++ f.cause.message

namespace Strategy

variable {κ : Type}

/-- Whether a strategy repairs issues of a rule. -/
def appliesTo (s : Strategy κ) (rule : String) : Bool := s.rules.contains rule

/-- What a strategy is chosen by: its confidence, weighted by its complexity. -/
def score [Confidence κ] (s : Strategy κ) : κ := s.confidence * s.complexity.weight

/-- The same strategy with another confidence. -/
def withConfidence (s : Strategy κ) (confidence : κ) : Strategy κ := { s with confidence }

/-- Attempts to repair an issue. -/
def apply (s : Strategy κ) (t : Text) (i : Issue) : Except StrategyFailure Fix :=
  match s.transform t i with
  | .ok fix => .ok { fix with strategy := s.id, rule := i.rule }
  | .error cause => .error ⟨s.id, i.rule, cause⟩

end Strategy

end Mend
