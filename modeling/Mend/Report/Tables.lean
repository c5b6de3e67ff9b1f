import Mend.Experience
import Mend.Report.Event

/-!
# Showing strategies and experience
-/

namespace Mend.Report

/-- A strategy and one of its rules, with the confidence it was registered with and the one that
was learned, if there is one. -/
structure StrategyRow where
  strategy : String
  rule : String
  base : Float
  learned : Option Float
  complexity : String

/-- A strategy and a rule in columns. -/
def columns (strategy rule : String) : String :=
  "  " ++ padRight 26 strategy ++ " " ++ padRight 30 rule ++ " "

/-- Shows one row of the table of strategies. -/
def strategyRow (r : StrategyRow) : Except BarError Event :=
  match bar r.base barWidth with
  | .error e => .error e
  | .ok b =>
    let learned := match r.learned with
      | some c => fixed 2 c
      | none => "  - "
    .ok (.line (columns r.strategy r.rule ++ b ++ " " ++ fixed 2 r.base ++ "  learned " ++ learned
      ++ "  " ++ styled "dim" r.complexity))

/-- Shows the table of strategies. -/
def strategies (rows : List StrategyRow) : Except BarError (List Event) :=
  match rows.mapM strategyRow with
  | .error e => .error e
  | .ok lines =>
    .ok (.line ("\n  " ++ styled "bold" "Fix Strategies" ++ "\n") :: lines ++ [.line ""])

/-- What the attempts of a strategy on a rule have come to. -/
structure ExperienceRow where
  strategy : String
  rule : String
  attempts : Int
  successes : Int
  confidence : Float

/-- The row for a record. -/
def ExperienceRow.ofRecord (r : Record Float) : ExperienceRow where
  strategy := r.strategy
  rule := r.rule
  attempts := r.attempts
  successes := r.successes
  confidence := r.confidence

/-- Shows one row of the table of experience. -/
def experienceRow (r : ExperienceRow) : Except BarError Event :=
  match bar r.confidence barWidth with
  | .error e => .error e
  | .ok b =>
    .ok (.line (columns r.strategy r.rule ++ s!"{r.successes}/{r.attempts}  " ++ b ++ " "
      ++ fixed 3 r.confidence))

/-- Shows what was learned. -/
def experience (rows : List ExperienceRow) : Except BarError (List Event) :=
  if rows.isEmpty then
    .ok [.line "\n  No learning data yet. Run `remedy fix` to start learning.\n"]
  else match rows.mapM experienceRow with
    | .error e => .error e
    | .ok lines =>
      .ok (.line ("\n  " ++ styled "bold" "Learned Strategy Confidence" ++ "\n") :: lines
        ++ [.line ""])

end Mend.Report
