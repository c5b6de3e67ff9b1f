import Mend.Project.Backup

/-!
# Undoing what sessions have written

A file is restored from its backup. Batches are looked through from the latest on, by their names.
The batch that was made last is undone from its last backup to its first, so that a file that was
written several times ends as it was before.

Left out: a disk that does not take every access, and the times of files, which are those of the
backup afterwards.
-/

namespace Mend

/-- Whether a backup was made for a session. -/
def Saved.isFor (s : Saved) (session : String) : Bool :=
  match s.session with
  | .text id => id == .ofString session
  | _ => false

namespace Project

/-- The names of the batches, the greatest first. -/
def batches (p : Project) : Except ProjectError (List RawText) :=
  match p.tree.get? p.backups with
  | none => .ok []
  | some .folder => .ok ((p.tree.namesIn p.backups).mergeSort fun a b => b.atMost a)
  | some _ => .error (.tree .notAFolder)

/-- The backups of a batch. -/
def savedIn (p : Project) (batch : RawText) : Except ProjectError (List Saved) :=
  match p.manifestBytes? (p.backups ++ [batch]) with
  | .error e => .error e
  | .ok none => .ok []
  | .ok (some bytes) => (Manifest.ofBytes bytes).mapError .manifest

/-- All backups, batch by batch. -/
def saved (p : Project) : Except ProjectError (List Saved) :=
  match p.batches with
  | .error e => .error e
  | .ok names => (names.mapM p.savedIn).map List.flatten

/-- Restores a file from its backup. -/
def restore (p : Project) (s : Saved) : Except ProjectError WriteResult × Project :=
  match p.leads s.backup with
  | .error e => (.error e, p)
  | .ok false =>
    (.ok {
      success := false
      message := "Backup file not found for " ++ s.session.display
      session := s.session
      file := some s.file }, p)
  | .ok true =>
    match p.tree.copy p.here s.backup (p.path.join s.file) with
    | .error e => (.error (.tree e), p)
    | .ok tree =>
      (.ok {
        success := true
        message := "Reverted " ++ s.session.display ++ ": restored " ++ s.file.text
        session := s.session
        file := some s.file
        backup := some s.backup }, { p with tree })

/-- Undoes a session: restores the first file that is listed for it. -/
def undo (p : Project) (session : String) : Except ProjectError WriteResult × Project :=
  match p.saved with
  | .error e => (.error e, p)
  | .ok entries =>
    match entries.find? (Saved.isFor · session) with
    | some s => p.restore s
    | none =>
      (.ok {
        success := false
        message := s!"No undo history for " ++ session
        session := .text session }, p)

/-- Restores files one after the other, up to the first that fails. -/
def restoreAll (p : Project) : List Saved → Except ProjectError (List WriteResult) × Project
  | [] => (.ok [], p)
  | s :: rest =>
    match p.restore s with
    | (.error e, p) => (.error e, p)
    | (.ok r, p) =>
      match p.restoreAll rest with
      | (.error e, p) => (.error e, p)
      | (.ok rs, p) => (.ok (r :: rs), p)

/-- Undoes the latest batch. -/
def undoLast (p : Project) : Except ProjectError (List WriteResult) × Project :=
  match p.batches with
  | .error e => (.error e, p)
  | .ok [] => (.ok [], p)
  | .ok (latest :: _) =>
    match p.savedIn latest with
    | .error e => (.error e, p)
    | .ok entries => p.restoreAll entries.reverse

end Project

end Mend
