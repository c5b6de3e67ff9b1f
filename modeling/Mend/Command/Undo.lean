import Mend.Command.Basic
import Mend.Command.Request
import Mend.Project.Undo

/-!
# Undoing

One session is undone, or the batch that was made last, or what can be undone is listed.
-/

namespace Mend

namespace Command

/-- Shows what became of restoring a file. -/
def restored (r : WriteResult) : Event :=
  if r.success then
    .line ("  " ++ Report.styledRaw "green" ("✅ " ++ r.session.display) ++ "  " ++ r.message)
  else .line ("  " ++ Report.styledRaw "red" ("❌ " ++ r.session.display) ++ "  " ++ r.message)

/-- Shows a backup. -/
def savedLine (s : Saved) : Event :=
  .line ("  " ++ s.session.display ++ "  " ++ s.file.text ++ "  \\[" ++ s.stamp.display ++ "]")

/-- Shows what can be undone. -/
def undoable (entries : List Saved) : List Event :=
  if entries.isEmpty then [.line "\n  No undoable sessions found.\n"]
  else
    [.line ("\n  " ++ Report.styled "bold" "Undoable Sessions" ++ "\n")] ++ entries.map savedLine
      ++ [.line ""]

/-- Shows what became of undoing a batch. -/
def undone (results : List WriteResult) : List Event :=
  if results.isEmpty then [.line "\n  No recent fix session to undo.\n"]
  else
    [.line ("\n  " ++ Report.styled "bold" "Undoing last fix session:" ++ "\n")]
      ++ results.map restored ++ [.line ""]

/-- Says how to undo. -/
def undoUsage : List Event := [
  .line "\n  Usage: remedy undo <SESSION_ID> or remedy undo --last",
  .line "  Run `remedy undo --list` to see available undos.\n"]

/-- The transcript of an action in a project. -/
def transcriptOf {α : Type} (events : α → List Event) : Except ProjectError α → Transcript
  | .ok a => .ofEvents (events a)
  | .error e => .failedWith (.project e)

/-- Undoes something in a project. -/
def undoIn (options : UndoOptions) (p : Project) : Transcript × Project :=
  if options.list then (transcriptOf undoable p.saved, p)
  else if options.last then
    let (results, p) := p.undoLast
    (transcriptOf undone results, p)
  else
    match options.session with
    | none | some "" => (.ofEvents undoUsage, p)
    | some session =>
      let (result, p) := p.undo session
      (transcriptOf (fun r => [restored r]) result, p)

/-- Undoes what sessions have written. -/
def runUndo (options : UndoOptions) (w : Workspace) : Transcript × Workspace :=
  match w.project.prepare with
  | .error e => (.failedWith (.project e), w)
  | .ok p =>
    let (t, p) := undoIn options p
    (t, { w with project := p })

end Command

end Mend
