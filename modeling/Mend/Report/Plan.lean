import Mend.Detection
import Mend.Plan
import Mend.Report.Event

/-!
# Showing issues and plans
-/

namespace Mend.Report

/-- The color of a severity. -/
def severityColor : Severity → String
  | .critical => "red"
  | .high => "magenta"
  | .medium => "yellow"
  | .low => "blue"

/-- An issue, with its suggestion on a line of its own if it has one. -/
def issue (i : Issue) : String :=
  "    " ++ styled (severityColor i.severity) "●" ++ " " ++ i.rule ++ "  "
    ++ styled "dim" i.location ++ "  " ++ esc i.description
    ++ (if i.suggestion = "" then ""
      else "\n       " ++ styled "dim" ("-> " ++ esc i.suggestion))

/-- The issues of a bucket under a heading; nothing for an empty bucket. -/
def bucket (style label : String) (issues : List Issue) : List String :=
  if issues.isEmpty then []
  else ["  " ++ styled style label] ++ issues.map issue ++ [""]

/-- The lines of a panel that shows a plan. -/
def planLines (m : Metrics) (p : Plan) : List String :=
  let color := scoreColor (Float.ofInt m.quality)
  ["",
    "  Quality:  " ++ styled color s!"{m.quality}/100" ++ s!"   Complexity: {m.complexity}"
      ++ s!"   Maintainability: {m.maintainability}",
    ""]
  ++ (if p.total = 0 then ["  " ++ styled "green" "No issues found.", ""] else [])
  ++ bucket "green" "Safe to fix automatically:" p.safe
  ++ bucket "yellow" "Risky (applied only with --unsafe):" p.risky
  ++ bucket "dim" "Manual review:" p.manual
  ++ [s!"  {p.safe.length} safe | {p.risky.length} risky | {p.manual.length} manual"
      ++ s!"   {m.linesOfCode} lines of code",
    ""]

/-- Shows the plan for a file. -/
def plan (file : String) (m : Metrics) (p : Plan) : List Event :=
  [.panel (String.intercalate "\n" (planLines m p)) (styled "bold" (esc file))
    (scoreColor (Float.ofInt m.quality))]

end Mend.Report
