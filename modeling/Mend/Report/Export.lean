import Mend.Engine.Session
import Mend.Experience
import Mend.Json.Basic

/-!
# Results as JSON

Results, issues and plans with all of their fields, in the order in which they are written.
-/

namespace Mend.Export

/-- A value, or null. -/
def optional {α : Type} (f : α → Json) : Option α → Json
  | some x => f x
  | none => .null

/-- An issue. -/
def issue (i : Issue) : Json := .record [
  ("rule_id", .text i.rule),
  ("severity", .text i.severity.name),
  ("category", .text i.category.name),
  ("description", .text i.description),
  ("line", optional .int i.line),
  ("evidence", .ofText i.evidence),
  ("suggestion", .text i.suggestion)]

/-- A list of issues. -/
def issues (is : List Issue) : Json := .list (is.map issue)

/-- A change. -/
def change (c : Change) : Json := .record [
  ("kind", .text c.kind.name),
  ("line_number", .int c.line),
  ("description", .text c.description),
  ("before", optional .ofText c.before),
  ("after", optional .ofText c.after)]

/-- A list of strings. -/
def strings (ss : List String) : Json := .list (ss.map fun (s : String) => .text s)

/-- A fix that was applied. -/
def appliedFix (f : Fix) : Json := .record [
  ("strategy_id", .text f.strategy),
  ("rule_id", .text f.rule),
  ("confidence", .float f.confidence),
  ("explanation", .text f.explanation),
  ("warnings", strings f.warnings),
  ("changes", .list (f.changes.map change))]

/-- The course of a session. -/
def session (s : Session) : Json := .record [
  ("id", .text s.id),
  ("file_path", .text s.file),
  ("start_time", .text s.started.text),
  ("end_time", optional (fun (i : Instant) => .text i.text) s.ended),
  ("total_fixes", .int s.total),
  ("successful_fixes", .int s.successful),
  ("failed_fixes", .int s.failed),
  ("risky_fixes", .int s.risky),
  ("safety_mode", .bool s.safetyMode),
  ("summary", .text s.summary),
  ("error", optional (fun (e : String) => .text e) s.error)]

/-- What became of the issues of a file. -/
def verification (v : Verification) : Json := .record [
  ("new_issues_introduced", .int v.introduced),
  ("issues_resolved", .int v.resolved),
  ("regression_detected", .bool v.regression),
  ("overall_improvement", .bool v.improvement)]

/-- A plan. -/
def plan (p : Plan) : Json := .record [
  ("safe", issues p.safe),
  ("risky", issues p.risky),
  ("manual", issues p.manual)]

/-- The result of a session. -/
def sessionResult (r : SessionResult) : Json := .record [
  ("session", session r.session),
  ("applied_fixes", .list (r.applied.map appliedFix)),
  ("verification", verification r.verification),
  ("plan", plan r.plan),
  ("recommendations", strings r.recommendations),
  ("changed", .bool r.changed),
  ("fixed_text", .ofText r.fixed)]

/-- A record of experience. -/
def record (r : Record Float) : Json := .record [
  ("strategy_id", .text r.strategy),
  ("rule_id", .text r.rule),
  ("attempts", .int r.attempts),
  ("successes", .int r.successes),
  ("confidence", .float r.confidence),
  ("updated_at", .text r.updated.text)]

end Mend.Export
