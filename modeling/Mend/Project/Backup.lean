import Mend.Project.Manifest

/-!
# Writing the result of a session

The result of a session is written only to a file that still holds what the session has seen.
Before that, the bytes of the file are saved in the batch of the moment, under a name that is not
taken, and listed in its manifest. If any of that fails, the file is not written.

A disk that does not take every access can be given; it is one that does if none is given. Left out:
other encodings than UTF-8, the times of files, which a backup keeps, too, and that the path of a
backup can get too long as a whole: only its name is measured here.
-/

namespace Mend

namespace Project

/-- The name of the folder for the batches of backups. -/
def backupsName : RawText := "backups"

/-- The location of the folder for the batches of backups. -/
def backups (p : Project) : Location := p.keep ++ [backupsName]

/-- The path of a file in a batch. -/
def batchPath (p : Project) (stamp name : RawText) : Path :=
  p.path.join { names := [keepName, backupsName, stamp, name] }

/-- The bytes of the manifest of a batch, if there is one. -/
def manifestBytes? (p : Project) (batch : Location) : Except ProjectError (Option Bytes) :=
  let l := batch ++ [Manifest.fileName]
  match p.tree.get? batch, p.tree.get? l with
  | some .folder, some _ => ((p.tree.bytesAt l).map some).mapError .tree
  | _, _ => .ok none

/-- The name of the `n`-th backup of files of the same name in one batch. -/
def backupName (name : RawText) (n : Nat) : RawText :=
  name ++ (if n = 0 then ".bak" else s!".{n}.bak")

/-- The first name for a backup that is not taken. One of them is free, since there are more names
than entries. -/
def freeName (t : Tree) (batch : Location) (name : RawText) : RawText :=
  let numbers := List.range (t.entries.length + 1)
  let free := numbers.find? fun n => (t.get? (Tree.next batch (backupName name n))).isNone
  backupName name (free.getD t.entries.length)

/-- Lists a backup in the manifest of its batch. The project is answered also if that fails. -/
def list (p : Project) (batch : Location) (entry : Json) (disk : Disk := .sound) :
    Except ProjectError Unit × Project :=
  let l := batch ++ [Manifest.fileName]
  match disk.hides p.tree l with
  | some e => (.error (.tree e), p)
  | none =>
    match p.manifestBytes? batch with
    | .error e => (.error e, p)
    | .ok bytes =>
      match Manifest.toExtend bytes with
      | .error e => (.error (.manifest e), p)
      | .ok entries =>
        let (done, tree) := p.tree.writeOn disk l (Manifest.toBytes (entries ++ [entry]))
        (done.mapError .tree, { p with tree })

/-- Saves the bytes of a file, as they were before a session is written to it. The project is
answered also if that fails, with the folders that were made and the bytes that were saved. -/
def backUp (p : Project) (session : String) (file : Path) (bytes : Bytes) (now : Instant)
    (disk : Disk := .sound) : Except ProjectError Path × Project :=
  let stamp : RawText := now.stamp
  match p.tree.makeOn disk p.root [keepName, backupsName, stamp] with
  | (.error e, tree) => (.error (.tree e), { p with tree })
  | (.ok (), tree) =>
    let batch := p.backups ++ [stamp]
    let name := freeName tree batch file.name
    if Tree.nameLimit < Tree.byteCount name then (.error (.tree .nameTooLong), { p with tree })
    else
      match tree.writeOn disk (Tree.next batch name) bytes with
      | (.error e, tree) => (.error (.tree e), { p with tree })
      | (.ok (), tree) =>
        let backup := p.batchPath stamp name
        let (listed, p) := { p with tree }.list batch (Manifest.entry session file backup stamp) disk
        (listed.map fun _ => backup, p)

/-- An attempt to write that is refused. -/
def refused (session : String) (file : Path) (message : RawText) : WriteResult :=
  { success := false, message, session := .text session, file := some file }

/-- Writes a text to a file that holds the given bytes, after saving them if that is wanted. -/
def writeOver (p : Project) (backup : Bool) (r : SessionResult) (file : Path) (bytes : Bytes)
    (now : Instant) (disk : Disk := .sound) : Except ProjectError WriteResult × Project :=
  let saved : Except ProjectError (Option Path) × Project :=
    if backup then
      match p.backUp r.session.id file bytes now disk with
      | (.ok path, p) => (.ok (some path), p)
      | (.error e, p) => (.error e, p)
    else (.ok none, p)
  match saved with
  | (.error e, p) => (.error e, p)
  | (.ok path, p) =>
    match p.tree.locate p.here file with
    | .error e => (.error (.tree e), p)
    | .ok l =>
      match p.tree.writeOn disk l (Utf8.encode r.fixed) with
      | (.error e, tree) => (.error (.tree e), { p with tree })
      | (.ok (), tree) =>
        (.ok {
          success := true
          message := s!"Applied {r.applied.length} fixes to " ++ file.text
          session := .text r.session.id
          file := some file
          backup := path }, { p with tree })

/-- Writes the result of a session to its file. -/
def write (p : Project) (backup : Bool) (r : SessionResult) (now : Instant)
    (disk : Disk := .sound) : Except ProjectError WriteResult × Project :=
  let file := p.path.join (.ofText r.session.file)
  let refuse (message : RawText) : Except ProjectError WriteResult × Project :=
    (.ok (refused r.session.id file message), p)
  if !r.changed then refuse "No changes to write."
  else
    match p.leads file with
    | .error e => (.error e, p)
    | .ok false => refuse ("File not found: " ++ file.text)
    | .ok true =>
      match p.read file disk with
      | .error e => (.error e, p)
      | .ok bytes =>
        if readText bytes != r.source then
          refuse "Source file has changed since the fix session. Re-run `remedy fix` first."
        else p.writeOver backup r file bytes now disk

end Project

end Mend
