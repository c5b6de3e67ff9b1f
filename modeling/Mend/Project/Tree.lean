import Mend.Project.Path
import Mend.Store
import Mend.Text.Utf8

/-!
# Trees of files

A tree knows what is at each location: a folder, a file with its bytes, or a database with its rows.
A location is the list of the names that lead to it from the top; a path leads to a location, step
by step through folders that exist.

A disk may refuse an access, and it may break off what is written. What is said of accesses without
naming a disk is meant on one that takes all of them.

Left out: links, owners, permissions and times of files, which are a matter of the disk, and that it
may not be told whether something is there. Names are written in bytes of UTF-8.
-/

namespace Mend

/-- What can be at a location. -/
inductive Entry
  | folder
  | file (bytes : Bytes)
  | database (rows : List Row)

/-- A place in a tree: the names that lead to it from the top. -/
abbrev Location := List RawText

/-- Everything there is. -/
structure Tree where
  entries : List (Location × Entry) := [([], .folder)]

/-- Why an access to a tree fails. -/
inductive TreeError
  | notFound
  | notAFolder
  | isAFolder
  /-- Something else is where a folder should be made. -/
  | occupied
  /-- A file would be copied onto itself. -/
  | sameFile
  /-- A name that no file can have. -/
  | noName
  /-- A name or a text that cannot be written in bytes. -/
  | unwritable
  | nameTooLong
  deriving DecidableEq, Repr

/-- What becomes of bytes that are written to a file. A text that cannot be written in bytes breaks
off before the first of them. -/
inductive Fate
  | whole
  /-- The file is not opened, and stays as it is. -/
  | refused (e : TreeError)
  /-- Writing breaks off: only the first bytes are in the file then. -/
  | cut (n : Nat) (e : TreeError)

/-- How a disk takes accesses. Why it does not take one is for the disk to say. -/
structure Disk where
  /-- Whether what is at a location cannot be looked at. -/
  hides : Tree → Location → Option TreeError := fun _ _ => none
  /-- Whether no folder can be made at a location. -/
  bars : Tree → Location → Option TreeError := fun _ _ => none
  /-- What becomes of bytes that are written to a location. -/
  takes : Tree → Location → Bytes → Fate := fun _ _ _ => .whole

/-- A disk that takes every access. -/
def Disk.sound : Disk := {}

namespace Tree

/-- What is at a location. -/
def get? (t : Tree) (l : Location) : Option Entry := t.entries.lookup l

/-- Puts an entry at a location, in a list of entries. -/
def setIn (l : Location) (e : Entry) : List (Location × Entry) → List (Location × Entry)
  | [] => [(l, e)]
  | (k, x) :: rest => if k = l then (k, e) :: rest else (k, x) :: setIn l e rest

/-- Puts an entry at a location. -/
def set (t : Tree) (l : Location) (e : Entry) : Tree := ⟨setIn l e t.entries⟩

/-- Takes away what is at a location and below it. -/
def erase (t : Tree) (l : Location) : Tree := ⟨t.entries.filter fun e => !l.isPrefixOf e.1⟩

/-- The name of a location, if it lies right inside a folder. -/
def nameIn? (folder l : Location) : Option RawText :=
  match l.getLast? with
  | some name => if l.dropLast = folder then some name else none
  | none => none

/-- The names in a folder. -/
def namesIn (t : Tree) (folder : Location) : List RawText :=
  t.entries.filterMap fun e => nameIn? folder e.1

/-! ## Paths -/

/-- The name that leads to the folder around a folder. -/
def around : RawText := ".."

/-- The location that one name leads to. Names that are the same in bytes lead to the same. -/
def next (place : Location) (name : RawText) : Location :=
  if name = around then place.dropLast else place ++ [Utf8.decode (Utf8.encodeRaw name)]

/-- The number of bytes of a name or a path. -/
def byteCount (t : RawText) : Nat := (Utf8.encodeRaw t).length

/-- The most bytes of a name. -/
def nameLimit : Nat := 255

/-- The number of bytes that no path has. -/
def pathLimit : Nat := 4096

/-- Follows names from a location on; all but the last must lead to folders. -/
def follow (t : Tree) (start : Location) : List RawText → Except TreeError Location
  | [] => .ok start
  | name :: rest =>
    match t.get? start with
    | some .folder =>
      if nameLimit < byteCount name then .error .nameTooLong else t.follow (next start name) rest
    | some _ => .error .notAFolder
    | none => .error .notFound

/-- Whether a code point can be written in the name of a file. -/
def isWritable : Point → Bool
  | .char _ => true
  | p => p.byte?.isSome

/-- Why a path leads nowhere, whatever there is. -/
def refusal? (p : Path) : Option TreeError :=
  if p.names.any fun name => !name.all isWritable then some .unwritable
  else if p.names.any (·.contains (.char '\x00')) then some .noName
  else if pathLimit ≤ byteCount p.text then some .nameTooLong
  else none

/-- Where a path starts from, for someone who is in the folder `here`. -/
def origin (here : Location) (p : Path) : Location := if p.isAbsolute then [] else here

/-- The location that a path leads to, for someone who is in the folder `here`. -/
def locate (t : Tree) (here : Location) (p : Path) : Except TreeError Location :=
  match refusal? p with
  | some e => .error e
  | none => t.follow (origin here p) p.names

/-- What a path leads to, if anything. -/
def find? (t : Tree) (here : Location) (p : Path) : Option Entry :=
  match t.locate here p with
  | .ok l => t.get? l
  | .error _ => none

/-- Whether a path leads to something. For a name that is too long this is not answered. -/
def leads (t : Tree) (here : Location) (p : Path) : Except TreeError Bool :=
  match t.locate here p with
  | .ok l => .ok (t.get? l).isSome
  | .error .nameTooLong => .error .nameTooLong
  | .error _ => .ok false

/-! ## Files -/

/-- The bytes at a location. Nothing looks at those of a database, which reads as an empty file. -/
def bytesAt (t : Tree) (l : Location) : Except TreeError Bytes :=
  match t.get? l with
  | none => .error .notFound
  | some .folder => .error .isAFolder
  | some (.file bytes) => .ok bytes
  | some (.database _) => .ok []

/-- The bytes that a path leads to, if the disk lets them be looked at. -/
def read (t : Tree) (here : Location) (p : Path) (disk : Disk := .sound) : Except TreeError Bytes :=
  match t.locate here p with
  | .ok l =>
    match disk.hides t l with
    | some e => .error e
    | none => t.bytesAt l
  | .error e => .error e

/-- Writes bytes to a location inside a folder. The tree is answered also if that fails. -/
def writeOn (disk : Disk) (t : Tree) (l : Location) (bytes : Bytes) :
    Except TreeError Unit × Tree :=
  match t.get? l with
  | some .folder => (.error .isAFolder, t)
  | _ =>
    match disk.takes t l bytes with
    | .whole => (.ok (), t.set l (.file bytes))
    | .refused e => (.error e, t)
    | .cut n e => (.error e, t.set l (.file (bytes.take n)))

/-- The tree after an access, unless that has failed. -/
def unlessFailed : Except TreeError Unit × Tree → Except TreeError Tree
  | (.ok (), t) => .ok t
  | (.error e, _) => .error e

/-- Writes bytes to a location inside a folder. -/
def writeAt (t : Tree) (l : Location) (bytes : Bytes) : Except TreeError Tree :=
  unlessFailed (t.writeOn .sound l bytes)

/-- Writes bytes to where a path leads. -/
def write (t : Tree) (here : Location) (p : Path) (bytes : Bytes) : Except TreeError Tree :=
  match t.locate here p with
  | .ok l => t.writeAt l bytes
  | .error e => .error e

/-- The path of a copy: inside the target if that is a folder, under the name of the source. -/
def copyTarget (t : Tree) (here : Location) (source target : Path) : Path :=
  match t.find? here target with
  | some .folder => target.join { names := source.names.getLast?.toList }
  | _ => target

/-- Whether two paths lead to the same entry. -/
def isSame (t : Tree) (here : Location) (p q : Path) : Bool :=
  match t.locate here p, t.locate here q with
  | .ok l, .ok k => l == k && (t.get? l).isSome
  | _, _ => false

/-- Copies a file. -/
def copy (t : Tree) (here : Location) (source target : Path) : Except TreeError Tree :=
  let target := t.copyTarget here source target
  if t.isSame here source target then .error .sameFile
  else
    match t.read here source with
    | .error e => .error e
    | .ok bytes => t.write here target bytes

/-! ## Folders -/

/-- Makes the folders that names lead to from a folder on, where there are none yet. The tree is
answered also if that fails. -/
def makeOn (disk : Disk) (t : Tree) (start : Location) :
    List RawText → Except TreeError Unit × Tree
  | [] => (.ok (), t)
  | name :: rest =>
    let l := start ++ [name]
    match t.get? l with
    | some .folder => t.makeOn disk l rest
    | some _ => (.error (if rest.isEmpty then .occupied else .notAFolder), t)
    | none =>
      match disk.bars t l with
      | some e => (.error e, t)
      | none => (t.set l .folder).makeOn disk l rest

/-- Makes the folders that names lead to from a folder on, where there are none yet. -/
def makeFolders (t : Tree) (start : Location) (names : List RawText) : Except TreeError Tree :=
  unlessFailed (t.makeOn .sound start names)

end Tree

end Mend
