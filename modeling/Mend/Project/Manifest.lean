import Mend.Json.Printer
import Mend.Json.Reader
import Mend.Project.Basic

/-!
# Manifests

The backups that are made within one second form a batch, in a folder of its own. The manifest of a
batch lists them in the order in which they were made: whose session it was, which file, where the
backup is, and when. People may have edited a manifest, so reading one takes nothing for granted.
-/

namespace Mend

/-- A backup that is listed in a manifest. -/
structure Saved where
  session : Json
  file : Path
  backup : Path
  stamp : Json

namespace Manifest

/-- The name of the file of a manifest. -/
def fileName : RawText := "manifest.json"

/-! ## Reading -/

/-- A field of an entry. -/
def fieldOf (name : RawText) : Json → Except ManifestError Json
  | .record fields =>
    match fields.lookup name with
    | some v => .ok v
    | none => .error .missingField
  | _ => .error .wrongKind

/-- A field of an entry that holds a path. -/
def pathOf (name : RawText) (entry : Json) : Except ManifestError Path :=
  match fieldOf name entry with
  | .ok (.text s) => .ok (.ofText s)
  | .ok _ => .error .wrongKind
  | .error e => .error e

/-- Reads an entry, field by field. -/
def savedOf (entry : Json) : Except ManifestError Saved := do
  let session ← fieldOf "session_id" entry
  let file ← pathOf "file" entry
  let backup ← pathOf "backup" entry
  let stamp ← fieldOf "timestamp" entry
  return { session, file, backup, stamp }

/-- Reads a manifest as JSON. -/
def jsonOf (bytes : Bytes) : Except ManifestError Json :=
  match readText? bytes with
  | none => .error .undecodable
  | some t =>
    match Json.ofChars t with
    | .ok v => .ok v
    | .error .malformed => .error .malformed
    | .error .tooManyDigits => .error .tooManyDigits
    | .error .tooDeep => .error .tooDeep

/-- The entries of a manifest. An empty text or record has none; other values that are no lists do
not hold entries. -/
def entriesOf : Json → Except ManifestError (List Json)
  | .list entries => .ok entries
  | .record [] => .ok []
  | .text [] => .ok []
  | _ => .error .wrongKind

/-- The backups that a manifest lists. -/
def ofBytes (bytes : Bytes) : Except ManifestError (List Saved) :=
  match jsonOf bytes with
  | .error e => .error e
  | .ok v =>
    match entriesOf v with
    | .error e => .error e
    | .ok entries => entries.mapM savedOf

/-! ## Writing -/

/-- An entry for a backup. -/
def entry (session : String) (file backup : Path) (stamp : RawText) : Json := .record [
  ("session_id", .text session), ("file", .text file.text), ("backup", .text backup.text),
  ("timestamp", .text stamp)]

/-- The bytes of a manifest. -/
def toBytes (entries : List Json) : Bytes := Utf8.encode (Json.indented (.list entries)).toList

/-- The entries of a manifest to be added to; there are none if there is no manifest yet. -/
def toExtend : Option Bytes → Except ManifestError (List Json)
  | none => .ok []
  | some bytes =>
    match jsonOf bytes with
    | .error e => .error e
    | .ok (.list entries) => .ok entries
    | .ok _ => .error .noList

end Manifest

end Mend
