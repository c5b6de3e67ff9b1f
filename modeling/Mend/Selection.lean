import Mend.Registry

/-!
# Which strategy repairs an issue

What was learned about a strategy and a rule replaces the confidence that the strategy was
registered with. Of the strategies for the rule, the one with the highest score is selected, and of
several with that score the one that was registered first.
-/

namespace Mend

/-- The confidences learned up to some moment, for strategies and rules. -/
structure Snapshot (κ : Type) where
  learned : List ((String × String) × κ) := []

namespace Snapshot

variable {κ : Type}

/-- The confidence learned for a strategy and a rule. -/
def get? (s : Snapshot κ) (strategy rule : String) : Option κ := s.learned.lookup (strategy, rule)

/-- Sets the confidence for a strategy and a rule. -/
def set (s : Snapshot κ) (strategy rule : String) (confidence : κ) : Snapshot κ :=
  ⟨((strategy, rule), confidence) :: s.learned⟩

/-- The confidence of a strategy in repairing issues of a rule. -/
def confidence (s : Snapshot κ) (strategy : Strategy κ) (rule : String) : κ :=
  (s.get? strategy.id rule).getD strategy.confidence

/-- A strategy with its confidence in repairing issues of a rule. -/
def adjust [Confidence κ] (s : Snapshot κ) (rule : String) (strategy : Strategy κ) : Strategy κ :=
  let c := s.confidence strategy rule
  if c != strategy.confidence then strategy.withConfidence c else strategy

end Snapshot

/-- The best strategy so far and the score that the next one has to exceed. -/
structure Best (κ : Type) where
  strategy : Option (Strategy κ)
  score : κ

namespace Best

variable {κ : Type} [Confidence κ]

/-- Before any strategy was looked at: every score above -1 will do. -/
def none : Best κ := ⟨Option.none, -1.0⟩

/-- The better of the best strategy so far and another one. -/
def consider (b : Best κ) (s : Strategy κ) : Best κ :=
  if b.score < s.score then ⟨some s, s.score⟩ else b

end Best

/-- The strategy for issues of a rule, with its confidence in repairing them. -/
def Registry.select {κ : Type} [Confidence κ] (r : Registry κ) (learned : Snapshot κ)
    (rule : String) : Option (Strategy κ) :=
  (((r.forRule rule).map (learned.adjust rule)).foldl Best.consider .none).strategy

end Mend
