import Mend.Engine.Session
import Mend.Json.Basic
import Mend.Project.Tree
import Mend.Settings
import Mend.Store

/-!
# Projects

A project is a folder in a tree, and the path by which it was given: from the top, or from the
folder that one is in. Its settings stand in a file of that folder, and everything else that is kept
about it is in a folder of its own, next to the sources.
-/

namespace Mend

/-- A folder with the tree it is in. -/
structure Project where
  root : Location
  tree : Tree
  /-- The folder that one is in, where paths lead from that do not start from the top. -/
  here : Location := root
  /-- The path by which the folder was given. What is written down of the files of a project begins
  with it. -/
  path : Path := { slashes := 1, names := root }

/-- Why the list of backups of a batch is not read. -/
inductive ManifestError
  /-- The list is no text. -/
  | undecodable
  | malformed
  /-- A whole number in the list has more digits than are read. -/
  | tooManyDigits
  /-- The list holds lists and records on more levels than are read. -/
  | tooDeep
  /-- An entry lacks a field. -/
  | missingField
  /-- The list, an entry or a field is of another kind than expected. -/
  | wrongKind
  /-- Something other than a list is there to be added to. -/
  | noList
  deriving DecidableEq, Repr

/-- Why the saved experience is not read. -/
inductive DatabaseError
  /-- A file that holds something else. -/
  | noDatabase
  /-- A folder. -/
  | unopenable
  /-- A row with a time that is none. -/
  | malformedTime
  deriving DecidableEq, Repr

/-- Why something cannot be done in a project. -/
inductive ProjectError
  | tree (e : TreeError)
  | settings (e : SettingsError)
  | manifest (e : ManifestError)
  | database (e : DatabaseError)
  deriving DecidableEq, Repr

namespace Project

/-- The name of the folder for what is kept about a project. -/
def keepName : RawText := ".remedy"

/-- The location of the folder for what is kept about a project. -/
def keep (p : Project) : Location := p.root ++ [keepName]

/-- Whether a path leads to something. -/
def leads (p : Project) (file : Path) : Except ProjectError Bool :=
  (p.tree.leads p.here file).mapError .tree

/-- The bytes that a path leads to, if the disk lets them be looked at. -/
def read (p : Project) (file : Path) (disk : Disk := .sound) : Except ProjectError Bytes :=
  (p.tree.read p.here file disk).mapError .tree

/-- The text of a source file, as sessions see it. -/
def readSource (p : Project) (file : Path) : Except ProjectError Text := (p.read file).map readText

/-- Makes sure that there is a folder for what is kept about a project. -/
def prepare (p : Project) : Except ProjectError Project :=
  match p.tree.get? p.keep with
  | none => .ok { p with tree := p.tree.set p.keep .folder }
  | some .folder => .ok p
  | some _ => .error (.tree .occupied)

/-- The name of the file of the settings. -/
def settingsName : RawText := "remedy.toml"

/-- The settings of a project. -/
def settings (p : Project) : Except ProjectError Settings :=
  let l := p.root ++ [settingsName]
  match p.tree.get? l with
  | none => .ok {}
  | some _ =>
    match p.tree.bytesAt l with
    | .error e => .error (.tree e)
    | .ok bytes => (Settings.ofBytes bytes).mapError .settings

end Project

/-- How an attempt to write or to restore a file came out. -/
structure WriteResult where
  success : Bool
  message : RawText
  /-- The session that the file belongs to. -/
  session : Json
  file : Option Path := none
  backup : Option Path := none

end Mend
