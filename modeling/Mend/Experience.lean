import Mend.Calendar
import Mend.Selection

/-!
# Experience

Every attempt to repair an issue is recorded for the strategy and the rule. The confidence starts
from that of the strategy and moves halfway to 1 with every success and halfway to 0 with every
failure, so that the latest outcomes count most.
-/

namespace Mend

/-- What the attempts of one strategy on one rule have come to. -/
structure Record (κ : Type) where
  strategy : String
  rule : String
  attempts : Nat := 0
  successes : Nat := 0
  confidence : κ
  updated : Instant

namespace Record

variable {κ : Type}

/-- The strategy and the rule of a record. -/
def key (r : Record κ) : String × String := (r.strategy, r.rule)

/-- The share of the attempts that succeeded; 0 without attempts. -/
def successRate (r : Record κ) : Float :=
  if r.attempts = 0 then 0.0 else Float.ofNat r.successes / Float.ofNat r.attempts

/-- The confidence after one more outcome: halfway to 1 or to 0. -/
def blend [Confidence κ] (confidence : κ) (success : Bool) : κ :=
  (confidence + (if success then 1.0 else 0.0)) / 2.0

/-- The record after one more outcome. -/
def after [Confidence κ] (r : Record κ) (success : Bool) (now : Instant) : Record κ :=
  { r with
    attempts := r.attempts + 1
    successes := if success then r.successes + 1 else r.successes
    confidence := blend r.confidence success
    updated := now }

/-- Records are listed by strategy, and by rule within one strategy. -/
def precedes (a b : Record κ) : Bool :=
  a.strategy < b.strategy || (a.strategy == b.strategy && a.rule ≤ b.rule)

/-- Puts a record in the place of the one with the same key, or behind all others. -/
def put (r : Record κ) : List (Record κ) → List (Record κ)
  | [] => [r]
  | x :: rest => if x.key = r.key then r :: rest else x :: put r rest

end Record

/-- All records, in the order in which they were begun. -/
structure Experience (κ : Type) where
  records : List (Record κ) := []

namespace Experience

variable {κ : Type}

/-- Nothing recorded yet. -/
def empty : Experience κ := {}

/-- The record of a strategy and a rule. -/
def get? (e : Experience κ) (strategy rule : String) : Option (Record κ) :=
  e.records.find? fun r => r.strategy == strategy && r.rule == rule

/-- The number of records. -/
def size (e : Experience κ) : Nat := e.records.length

/-- The records by strategy and rule. -/
def sorted (e : Experience κ) : List (Record κ) := e.records.mergeSort Record.precedes

/-- The confidences as they are now. -/
def snapshot (e : Experience κ) : Snapshot κ := ⟨e.records.map fun r => (r.key, r.confidence)⟩

/-- The record of a strategy and a rule after one more outcome; `base` is the confidence to start
from if there is no record yet. -/
def next [Confidence κ] (e : Experience κ) (strategy rule : String) (success : Bool) (base : κ)
    (now : Instant) : Record κ :=
  let old := (e.get? strategy rule).getD { strategy, rule, confidence := base, updated := now }
  old.after success now

/-- Records one more outcome. -/
def add [Confidence κ] (e : Experience κ) (strategy rule : String) (success : Bool) (base : κ)
    (now : Instant) : Experience κ :=
  ⟨Record.put (e.next strategy rule success base now) e.records⟩

end Experience

end Mend
