import Mend.Command.Fix
import Mend.Command.Scan
import Mend.Command.Tables
import Mend.Command.Undo

/-!
# The program

The arguments are understood, and the command is run that they ask for.
-/

namespace Mend

namespace Project

/-- What an argument leads to as the path of a file. -/
def look (p : Project) (arg : String) : Found :=
  match p.tree.locate p.here (.ofText arg) with
  | .error .noName => .noName
  | .error _ => .noFile
  | .ok l =>
    if Path.isFolderText arg then .noFile
    else
      match p.tree.get? l with
      | some .folder | none => .noFile
      | some _ => .file

end Project

namespace Command

/-- Runs a command. `answers` are those to the questions that it asks. -/
def run (answers : List Bool) (w : Workspace) : Command → Transcript × Workspace
  | .scan files => runScan files w
  | .fix options files => runFix options files answers w
  | .strategies => runStrategies w
  | .learning json reset => runLearning json reset w
  | .undo options => runUndo options w

end Command

/-- What a run of the program comes to. -/
inductive Outcome
  /-- The arguments cannot be understood. -/
  | misused
  | help
  | version
  | ran (t : Transcript)
  deriving DecidableEq, Repr

namespace Outcome

/-- The exit code. -/
def code : Outcome → Nat
  | misused => 2
  | help | version => 0
  | ran t => if t.ending = .done then 0 else 1

end Outcome

namespace Workspace

/-- Runs the program with some arguments. -/
def run (w : Workspace) (args : List String) (answers : List Bool) : Outcome × Workspace :=
  match Request.ofArguments w.project.look args with
  | .error .misused => (.misused, w)
  | .error .noName => (.ran (.failedWith (.project (.tree .noName))), w)
  | .ok .help => (.help, w)
  | .ok .version => (.version, w)
  | .ok (.run c) =>
    let (t, w) := c.run answers w
    (.ran t, w)

end Workspace

/-- The text that names the program and its version. -/
def versionText : String := "remedy, version 0.1.0\n"

end Mend
