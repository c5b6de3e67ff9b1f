import Mend.Command.Basic
import Mend.Report.Plan

/-!
# Scanning

For each file, the issues are shown that are detected in it, and how each of them would be dealt with
by a session.
-/

namespace Mend

namespace Opened

/-- What is detected in a text. -/
def detection (o : Opened) (t : Text) : Detection := .ofText o.settings.detector t

/-- The plan for some issues. -/
def plan (o : Opened) (issues : List Issue) : Plan :=
  .make .standard o.store.live.snapshot o.settings.thresholds issues

end Opened

namespace Command

/-- Scans files one after the other, up to the first that cannot be read. -/
def scanFiles (o : Opened) (p : Project) : List String → Transcript
  | [] => {}
  | file :: rest =>
    let path := Path.ofText file
    match p.readSource path with
    | .error e => .failedWith (.project e)
    | .ok t =>
      let d := o.detection t
      (scanFiles o p rest).after (Report.plan path.text.string d.metrics (o.plan d.issues))

/-- Scans files. -/
def runScan (files : List String) (w : Workspace) : Transcript × Workspace :=
  match w.project.openWithSettings with
  | (.error e, p) => (.failedWith (.project e), { w with project := p })
  | (.ok o, p) => (scanFiles o p files, { w with project := p })

end Command

end Mend
