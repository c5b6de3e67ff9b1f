import Mend.Text.Basic

/-!
# Issues

An issue is one problem found in a file: the rule it breaks, how severe it is, what kind of problem
it is, and where it was seen.
-/

namespace Mend

/-- How severe an issue is. -/
inductive Severity
  | critical
  | high
  | medium
  | low
  deriving DecidableEq, Repr

namespace Severity

/-- All severities, the most severe first. -/
def all : List Severity := [critical, high, medium, low]

/-- The word for a severity. -/
def name : Severity → String
  | critical => "critical"
  | high => "high"
  | medium => "medium"
  | low => "low"

/-- The severity of that name. -/
def ofName? (s : String) : Option Severity := all.find? (·.name == s)

/-- The place of a severity in reports: the most severe comes first. -/
def rank : Severity → Nat
  | critical => 0
  | high => 1
  | medium => 2
  | low => 3

end Severity

/-- What kind of problem an issue is. -/
inductive Category
  | security
  | quantum
  | error
  | optimization
  | warning
  deriving DecidableEq, Repr

namespace Category

/-- All categories. -/
def all : List Category := [security, quantum, error, optimization, warning]

/-- The word for a category. -/
def name : Category → String
  | security => "security"
  | quantum => "quantum"
  | error => "error"
  | optimization => "optimization"
  | warning => "warning"

/-- The category of that name. -/
def ofName? (s : String) : Option Category := all.find? (·.name == s)

end Category

/-- One problem in a file. -/
structure Issue where
  /-- The rule that reports it. -/
  rule : String
  severity : Severity := .medium
  category : Category := .error
  description : String
  /-- The line it was seen on, counted from 1, if it belongs to one. -/
  line : Option Int := none
  /-- The part of the file that shows it. -/
  evidence : Text := []
  suggestion : String := ""
  deriving DecidableEq, Repr

namespace Issue

/-- Where an issue is: a line, or the file as a whole if there is no line or the line is 0. -/
def location (i : Issue) : String :=
  match i.line with
  | some n => if n = 0 then "file" else s!"line {n}"
  | none => "file"

/-- How many of the issues are critical. -/
def criticalCount (issues : List Issue) : Nat := issues.countP (·.severity == .critical)

end Issue

end Mend
