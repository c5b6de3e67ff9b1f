import Mend.Issue
import Mend.Text.Pattern

/-!
# Rules

A rule looks through the text of a file and answers what it finds, or fails. Most rules look for a
pattern: either every hit is a finding, or the first hit stands for all of them, where the fix
changes the whole file anyway.
-/

namespace Mend

open Text

/-- What a rule has seen, and on which line. -/
structure Finding where
  line : Option Nat := none
  evidence : Text := []
  deriving DecidableEq, Repr

/-- A rule, with what it says about each issue it reports. -/
structure Rule where
  id : String
  title : String
  category : Category
  severity : Severity
  description : String
  suggestion : String
  /-- What the rule finds in a text; a failing rule answers why. -/
  find : Text → Except String (List Finding)

namespace Rule

/-- The issue that a finding of a rule is reported as. -/
def issue (r : Rule) (f : Finding) : Issue where
  rule := r.id
  severity := r.severity
  category := r.category
  description := s!"{r.title}: {r.description}"
  line := f.line.map Int.ofNat
  evidence := f.evidence
  suggestion := r.suggestion

/-- The issues that a rule reports in a text. -/
def run (r : Rule) (t : Text) : Except String (List Issue) := (r.find t).map (·.map r.issue)

/-- Every hit of a pattern, with the text it covers. -/
def eachHit (p : Pattern) (t : Text) : List Finding :=
  (hits p t).map fun h => { line := some h.line, evidence := trim h.covered }

/-- The evidence of a first hit that stands for `others` more. -/
def summarized (first : Text) (others : Nat) : Text :=
  if others = 0 then first else first ++ s!" (+{others} more)".toList

/-- The first hit of a pattern, with the number of the others. -/
def firstHit (p : Pattern) (t : Text) : List Finding :=
  match hits p t with
  | [] => []
  | h :: others =>
    [{ line := some h.line, evidence := summarized (trim h.covered) others.length }]

end Rule

end Mend
