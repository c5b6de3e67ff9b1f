import Mend.Diff.Unified
import Mend.Engine.Session
import Mend.Report.Event

/-!
# Showing sessions
-/

namespace Mend.Report

/-- A line of a diff in the color of its mark. -/
def diffLine (line : Text) : Event :=
  match line.head? with
  | some '-' => .line ("  " ++ styled "red" (escText line))
  | some '+' => .line ("  " ++ styled "green" (escText line))
  | _ => .line ("  " ++ escText line)

/-- Shows what changed in a file. -/
def diff (file : String) (source fixed : Text) : List Event :=
  let path := file.toList
  (Diff.unified ("a/".toList ++ path) ("b/".toList ++ path) source fixed).map diffLine

/-- Shows how a session ended. -/
def ending (s : Session) : List Event :=
  if s.error.any (· != "") then [.line ("\n  " ++ styled "red" ("❌ " ++ esc s.summary))]
  else
    [.line ("\n  " ++ styled "bold" (esc s.file) ++ "  " ++ styled "dim" s.id),
      .line ("  " ++ esc s.summary)]

/-- Shows a fix that was applied and its warnings. -/
def appliedFix (f : Fix) : Except BarError (List Event) :=
  match bar f.confidence barWidth with
  | .error e => .error e
  | .ok b =>
    .ok (.line ("  " ++ styled "green" ("✅ " ++ f.strategy) ++ "  " ++ esc f.explanation ++ "  " ++ b)
      :: f.warnings.map fun w => .line ("     " ++ styled "yellow" ("! " ++ esc w)))

/-- Shows one recommendation. -/
def recommendation (s : String) : Event := .line ("  " ++ styled "cyan" ("-> " ++ esc s))

/-- Shows a session, with its diff if that is wanted. -/
def session (r : SessionResult) (showDiff : Bool) : Except BarError (List Event) :=
  match r.applied.mapM appliedFix with
  | .error e => .error e
  | .ok fixes =>
    .ok (ending r.session ++ fixes.flatten
      ++ (if r.verification.regression
        then [.line ("  " ++ styled "red" "Regression detected.")] else [])
      ++ (if showDiff && r.changed
        then .line "" :: diff r.session.file r.source r.fixed else [])
      ++ (if r.recommendations.isEmpty then []
        else .line "" :: r.recommendations.map recommendation)
      ++ [.line ""])

end Mend.Report
