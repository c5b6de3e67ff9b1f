import Mend.Calendar
import Mend.Detection
import Mend.Fix.Basic
import Mend.Number.Decimal
import Mend.Plan
import Mend.Text.Hex
import Mend.Verification

/-!
# Sessions

A session is one run over one file: which attempts were made and how they came out, what is left to
do, and how to sum it up.

Left out: chance. The part of an identifier that is drawn at random is the number of the session
here, so that no two sessions of a run have the same.
-/

namespace Mend

/-- The course of a session: its counts and its times. -/
structure Session where
  id : String
  file : String
  started : Instant
  ended : Option Instant := none
  total : Int := 0
  successful : Int := 0
  failed : Int := 0
  risky : Int := 0
  safetyMode : Bool := true
  summary : String := ""
  error : Option String := none
  deriving DecidableEq, Repr

namespace Session

/-- The identifier of the `number`-th session, begun at some moment. The moment goes through
seconds, so that its milliseconds are those of the nearest double. -/
def idAt (now : Instant) (number : Nat) : String :=
  let ms := (wholePart (now.age.seconds * 1000.0)).toOption.getD 0
  s!"fix_{ms}_" ++ String.ofList (Text.hex 9 number)

/-- Whether a session has ended. -/
def finished (s : Session) : Bool := s.ended.isSome

/-- The seconds that a session took, up to now if it has not ended. -/
def duration (s : Session) (now : Instant) : Float := s.started.secondsUntil (s.ended.getD now)

/-- The percentage of attempts that succeeded; 0 without attempts. -/
def successRate (s : Session) : Float :=
  if s.total = 0 then 0.0 else Float.ofInt s.successful / Float.ofInt s.total * 100.0

/-- The words that sum up a session that was completed. -/
def completedSummary (s : Session) (now : Instant) (v : Verification) : String :=
  "Auto-fix completed in " ++ fixed 1 (s.duration now) ++ "s. "
    ++ s!"{s.successful}/{s.total} fixes succeeded (" ++ fixed 0 s.successRate ++ "%). "
    ++ s!"{v.resolved} issues resolved, {v.introduced} new issues introduced."

/-- The words that sum up a session that was given up. -/
def abortedSummary (s : Session) (now : Instant) (reason : String) : String :=
  "Auto-fix aborted after " ++ fixed 1 (s.duration now) ++ "s. "
    ++ s!"{s.successful}/{s.total} fixes succeeded before the failure: " ++ reason

end Session

/-- What a session comes to. -/
structure SessionResult where
  session : Session
  source : Text
  fixed : Text
  applied : List Fix := []
  verification : Verification := {}
  recommendations : List String := []
  plan : Plan := {}

namespace SessionResult

/-- Whether the session changed the text. -/
def changed (r : SessionResult) : Bool := r.fixed != r.source

end SessionResult

/-- What to do next, given the fixes that were applied and what is still detected. -/
structure Outlook where
  applied : List Fix
  verification : Verification
  remaining : Detection
  plan : Plan
  safetyMode : Bool

namespace Outlook

/-- The complexity from which on refactoring is recommended. -/
def complexityLimit : Int := 20

/-- Each recommendation with whether it is given, in the order in which they are listed. -/
def advice (o : Outlook) : List (Bool × String) :=
  let critical := Issue.criticalCount o.remaining.issues
  let risky := o.plan.risky.length
  let manual := o.plan.manual.length
  [(o.applied.any fun f => !f.warnings.isEmpty,
      "Review the warnings of the applied fixes before committing."),
    (o.verification.regression,
      "Regression detected: the fixes introduced new critical issues; review before applying."),
    (critical != 0, s!"{critical} critical issues remain and need immediate attention."),
    (complexityLimit < o.remaining.metrics.complexity,
      "Code complexity is still high; consider refactoring."),
    (o.safetyMode && risky != 0,
      s!"{risky} risky fixes were skipped in safety mode; "
        ++ "rerun with safety mode off to apply them."),
    (manual != 0, s!"{manual} issues need manual review.")]

/-- The recommendations that are given. -/
def recommendations (o : Outlook) : List String :=
  (o.advice.filter (·.1)).map (·.2)

end Outlook

end Mend
