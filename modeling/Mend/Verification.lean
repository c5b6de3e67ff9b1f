import Mend.Issue

/-!
# Verification

The issues before and after a session are compared by their rules only. An issue is new if no issue
of its rule was there before.
-/

namespace Mend

/-- What became of the issues of a file. -/
structure Verification where
  introduced : Int := 0
  resolved : Int := 0
  regression : Bool := false
  improvement : Bool := false
  deriving DecidableEq, Repr

namespace Verification

/-- The issues of rules that had no issue before. -/
def newIssues (before after : List Issue) : List Issue :=
  after.filter fun i => !before.any (·.rule == i.rule)

/-- Compares the issues before and after. -/
def compare (before after : List Issue) : Verification :=
  let new := newIssues before after
  { introduced := new.length
    resolved := max 0 (before.length + new.length - after.length)
    regression := new.any (·.severity == .critical)
    improvement := after.length < before.length }

end Verification

end Mend
