import Mend.Catalog
import Mend.Engine.Basic
import Mend.Project.Memory
import Mend.Report.Event

/-!
# Running commands

A command sees a workspace and shows events. If it fails, what it has shown and changed until then
stays.

Left out: a disk that does not take every access (`Disk` is for single writes), other programs that
change files while a command runs, and that the clock goes on while sessions are run. When a result
is written it is read anew.
-/

namespace Mend

/-- What commands work on: a project, the time, and the number of sessions begun so far. -/
structure Workspace where
  project : Project
  now : Instant
  begun : Nat := 0
  /-- By how much the clock has moved on when a result is written: the first, the next, and so on. -/
  delays : Nat → Span := fun _ => 0

/-- The moments at which results are written, one after the other. -/
def Workspace.moments (w : Workspace) (n : Nat) : Instant := w.now.later (w.delays n)

/-- Why a command is given up. -/
inductive CommandError
  | project (e : ProjectError)
  | report (e : Report.BarError)
  deriving DecidableEq, Repr

/-- How a command ends. -/
inductive Ending
  | done
  /-- A session has introduced critical issues, and the command was told to fail in that case. -/
  | regressed
  | failed (e : CommandError)
  deriving DecidableEq, Repr

/-- What a command shows and how it ends. -/
structure Transcript where
  events : List Event := []
  ending : Ending := .done
  deriving DecidableEq, Repr

namespace Transcript

/-- Events with which a command is done. -/
def ofEvents (events : List Event) : Transcript := { events }

/-- A failure with nothing shown. -/
def failedWith (e : CommandError) : Transcript := { ending := .failed e }

/-- Events in front of everything else. -/
def after (events : List Event) (t : Transcript) : Transcript :=
  { t with events := events ++ t.events }

/-- What a report shows, if it can be drawn. -/
def ofReport : Except Report.BarError (List Event) → Transcript
  | .ok events => ofEvents events
  | .error e => failedWith (.report e)

end Transcript

/-- A project with its settings and the store that they ask for. -/
structure Opened where
  settings : Settings
  store : Store

namespace Project

/-- Reads the settings and opens the store of a project. The project is answered also if one of them
cannot be read. -/
def openWithSettings (p : Project) : Except ProjectError Opened × Project :=
  match p.settings with
  | .error e => (.error e, p)
  | .ok settings =>
    if settings.persist then
      match p.openStore with
      | (.error e, p) => (.error e, p)
      | (.ok store, p) => (.ok { settings, store }, p)
    else (.ok { settings, store := .inMemory }, p)

end Project

end Mend
