import Mend.Selection

/-!
# Plans

A plan divides issues by the risk of repairing them: safe ones are repaired at once, risky ones only
on request, and the others are left to people. Safe and risky issues are repaired in the order of
their priority, and in the order of detection within one priority.
-/

namespace Mend

/-- How an issue is dealt with, from the most to the least automatic. -/
inductive Bucket
  | safe
  | risky
  | manual
  deriving DecidableEq, Repr

/-- The confidences from which on a repair counts as safe or as risky. -/
structure Thresholds (κ : Type) where
  safe : κ
  risky : κ

namespace Thresholds

variable {κ : Type} [Confidence κ]

/-- The thresholds where none are set. -/
def standard : Thresholds κ := ⟨0.8, 0.6⟩

/-- The bucket of an issue, given the strategy selected for it. Complex strategies are never
safe. -/
def bucket (th : Thresholds κ) : Option (Strategy κ) → Bucket
  | none => .manual
  | some s =>
    if th.safe ≤ s.confidence ∧ s.complexity ≠ .complex then .safe
    else if th.risky ≤ s.confidence then .risky
    else .manual

end Thresholds

/-- How much the severity of an issue adds to its priority. -/
def Severity.weight : Severity → Nat
  | critical => 10
  | high => 8
  | medium => 5
  | low => 2

/-- How much the category of an issue adds to its priority. -/
def Category.weight : Category → Nat
  | security => 3
  | quantum => 2
  | error => 2
  | optimization => 1
  | warning => 1

/-- The priority of an issue. -/
def Issue.priority (i : Issue) : Nat := i.severity.weight + i.category.weight

/-- Issues divided by how they are dealt with. -/
structure Plan where
  safe : List Issue := []
  risky : List Issue := []
  manual : List Issue := []
  deriving DecidableEq, Repr

namespace Plan

/-- The number of issues. -/
def total (p : Plan) : Nat := p.safe.length + p.risky.length + p.manual.length

/-- Issues in the order of their priority, highest first. -/
def byPriority (issues : List Issue) : List Issue :=
  issues.mergeSort fun a b => b.priority ≤ a.priority

/-- Divides issues by their buckets. -/
def ofBuckets (bucket : Issue → Bucket) (issues : List Issue) : Plan where
  safe := byPriority (issues.filter (bucket · = .safe))
  risky := byPriority (issues.filter (bucket · = .risky))
  manual := issues.filter (bucket · = .manual)

/-- The plan for some issues. -/
def make {κ : Type} [Confidence κ] (r : Registry κ) (learned : Snapshot κ) (th : Thresholds κ)
    (issues : List Issue) : Plan :=
  ofBuckets (fun i => th.bucket (r.select learned i.rule)) issues

end Plan

end Mend
