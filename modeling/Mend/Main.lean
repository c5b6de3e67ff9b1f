import Mend.Command.Run
import Mend.Project.Rows
import Std.Time.DateTime.Timestamp

/-!
# The command line

Reads from the disk what a command may look at, runs the command, and writes to the disk what it has
changed. Where a command asks a question, it is run again with the answer; what was shown before is
not shown again. All that a command writes is written at the moment at which it was started.
-/

namespace Mend.Console

/-! ## Reading from the disk -/

/-- A location as an absolute path. -/
def absolute (l : Location) : String := ({ slashes := 1, names := l } : Path).text.string

/-- What is at a location of the disk. -/
def entryAt (l : Location) : IO (Option Entry) := do
  let file := (← IO.currentDir) / absolute l
  if ← file.isDir then return some .folder
  if ← file.pathExists then return some (.file (← IO.FS.readBinFile file).toList)
  return none

/-- Takes over what is at a location of the disk. -/
def load (t : Tree) (l : Location) : IO Tree := do
  match ← entryAt l with
  | some e => return t.set l e
  | none => return t

/-- Takes over what is at a location of the disk, and everything below it. -/
partial def loadBelow (t : Tree) (l : Location) : IO Tree := do
  let t ← load t l
  match t.get? l with
  | some .folder =>
    let folder := (← IO.currentDir) / absolute l
    (← folder.readDir).foldlM (fun t e => loadBelow t (l ++ [(e.fileName : RawText)])) t
  | _ => return t

/-- Takes over everything that a path leads through. -/
def loadAlong (here : Location) (t : Tree) (p : Path) : IO Tree := do
  let start := if p.isAbsolute then [] else here
  let (t, _) ← p.names.foldlM (fun (t, l) name => do
    let l := Tree.next l name
    return (← load t l, l)) (t, start)
  return t

/-- Reads the rows of the database of a project. -/
def withRows (p : Project) : Project :=
  match p.tree.get? p.database with
  | some (.file bytes) =>
    match Rows.ofBytes? bytes with
    | some rows => { p with tree := p.tree.set p.database (.database rows) }
    | none => p
  | _ => p

/-- The files that a project can restore, with their backups. -/
def restorable (p : Project) : List Path :=
  match p.saved with
  | .ok entries => entries.flatMap fun s => [s.backup, s.file]
  | .error _ => []

/-- The project in the folder that one is in, as far as a command with these arguments can look at
it. -/
def project (args : List String) : IO Project := do
  let root := (Path.ofText (← IO.currentDir).toString).names
  let t ← loadAlong [] {} { names := root }
  let t ← load t (root ++ [Project.settingsName])
  let t ← loadBelow t (root ++ [Project.keepName])
  let t ← args.foldlM (fun t (arg : String) => loadAlong root t (.ofText arg)) t
  let p : Project := withRows { root, tree := t }
  return { p with tree := ← (restorable p).foldlM (loadAlong root) p.tree }

/-! ## Writing to the disk -/

/-- Writes bytes to a location of the disk. -/
def store (l : Location) (bytes : Bytes) : IO Unit :=
  IO.FS.writeBinFile (absolute l) ⟨bytes.toArray⟩

/-- Writes an entry to the disk, if it is new or has changed. -/
def save (before : Tree) (l : Location) (e : Entry) : IO Unit :=
  match e, before.get? l with
  | .folder, none => IO.FS.createDirAll (absolute l)
  | .folder, some _ => pure ()
  | .database rows, _ => store l (Rows.toBytes rows)
  | .file bytes, some (.file old) => if bytes = old then pure () else store l bytes
  | .file bytes, _ => store l bytes

/-- Writes to the disk what has changed in a tree. -/
def saveAll (before after : Tree) : IO Unit :=
  after.entries.forM fun e => save before e.1 e.2

/-! ## Showing events -/

/-- Shows an event. -/
def display : Event → IO Unit
  | .line markup => IO.println markup.string
  | .panel markup title _ => do
    IO.println title
    IO.println markup
  | .plain t => IO.println t
  | .question _ _ => pure ()

/-- The place of the first question behind the given number of answered ones, and its words. -/
def open? (answered place : Nat) : List Event → Option (Nat × String)
  | [] => none
  | .question prompt _ :: rest =>
    match answered with
    | 0 => some (place, prompt)
    | answered + 1 => open? answered (place + 1) rest
  | _ :: rest => open? answered (place + 1) rest

/-- Asks a question. -/
def ask (prompt : String) : IO Bool := do
  IO.print (prompt ++ " [y/n] (n): ")
  (← IO.getStdout).flush
  let answer ← (← IO.getStdin).getLine
  return Text.trim answer.toList == ['y']

/-- Runs the program and asks its questions, `shown` events having been shown already. -/
partial def converse (w : Workspace) (args : List String) (answers : List Bool) (shown : Nat) :
    IO (Outcome × Workspace) := do
  let (outcome, after) := w.run args answers
  match outcome with
  | .ran t =>
    match open? answers.length 0 t.events with
    | some (place, prompt) =>
      ((t.events.take place).drop shown).forM display
      converse w args (answers ++ [← ask prompt]) (place + 1)
    | none =>
      (t.events.drop shown).forM display
      return (outcome, after)
  | _ => return (outcome, after)

/-- How to use the program. -/
def usage : String :=
  "Usage: remedy [--version] [--verbose] [--help] scan|fix|strategies|learning|undo [ARGS]...\n"

/-- Says how a run of the program has ended, where that is not shown yet. -/
def conclude : Outcome → IO Unit
  | .misused => IO.eprint usage
  | .help => IO.print usage
  | .version => IO.print versionText
  | .ran t =>
    match t.ending with
    | .failed e => IO.eprintln (repr e).pretty
    | _ => pure ()

end Mend.Console

open Mend in
/-- Runs the program. -/
def main (args : List String) : IO UInt32 := do
  let project ← Console.project args
  let nanoseconds := (← Std.Time.Timestamp.now).toNanosecondsSinceUnixEpoch.val
  let w : Workspace := { project, now := ⟨⟨nanoseconds / 1000⟩⟩ }
  let (outcome, after) ← Console.converse w args [] 0
  Console.saveAll project.tree after.project.tree
  Console.conclude outcome
  return outcome.code.toUInt32
