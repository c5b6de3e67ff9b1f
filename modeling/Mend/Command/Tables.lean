import Mend.Command.Basic
import Mend.Json.Printer
import Mend.Report.Export
import Mend.Report.Tables

/-!
# Showing the strategies and what was learned

Nothing is written to any source. What was learned can be forgotten, if that is asked for.
-/

namespace Mend

namespace Command

/-- The rows of the table of strategies: one for each rule of each strategy. -/
def strategyRows (learned : Snapshot Float) (strategies : List (Strategy Float)) :
    List Report.StrategyRow :=
  strategies.flatMap fun s => s.rules.map fun rule =>
    { strategy := s.id
      rule
      base := s.confidence
      learned := learned.get? s.id rule
      complexity := s.complexity.name }

/-- Shows the strategies. -/
def runStrategies (w : Workspace) : Transcript × Workspace :=
  match w.project.openWithSettings with
  | (.error e, p) => (.failedWith (.project e), { w with project := p })
  | (.ok o, p) =>
    let rows := strategyRows o.store.live.snapshot Strategy.catalog
    (.ofReport (Report.strategies rows), { w with project := p })

/-- Shows records, as JSON or as text. -/
def showRecords (json : Bool) (records : List (Record Float)) : Transcript :=
  if json then .ofEvents [.plain (Json.list (records.map Export.record)).indented]
  else .ofReport (Report.experience (records.map .ofRecord))

/-- Shows or forgets what was learned. -/
def runLearning (json reset : Bool) (w : Workspace) : Transcript × Workspace :=
  match w.project.openStore with
  | (.error e, p) => (.failedWith (.project e), { w with project := p })
  | (.ok store, p) =>
    if reset then
      let (count, store) := store.reset
      (.ofEvents [.line s!"\n  Cleared {count} learning entries.\n"],
        { w with project := p.saveStore store })
    else (showRecords json store.live.sorted, { w with project := p })

end Command

end Mend
