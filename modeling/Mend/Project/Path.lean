import Mend.Text.Raw

/-!
# Paths

A path is the names that lead to a file, from the top of all folders or from the folder that one is
in. Empty names and names of a single dot lead nowhere and are left out; two dots are kept, since
where they lead depends on the folders.
-/

namespace Mend

/-- A path. -/
structure Path where
  /-- The slashes in front: none for a path from the folder that one is in. Two of them are kept as
  two, and more count as one. -/
  slashes : Nat := 0
  names : List RawText
  deriving DecidableEq, Repr

namespace Path

/-- Whether a name is part of a path. -/
def isName (s : RawText) : Bool := s != [] && s != [.char '.']

/-- What stands between the names of a path. -/
def slash : Point := .char '/'

/-- The pieces of a text between its slashes. -/
def pieces (s : RawText) : List RawText := s.splitOn slash

/-- The slashes in front of a path, for the number of those in front of a text. -/
def slashesOf (n : Nat) : Nat := if 2 < n then 1 else n

/-- The path that a text writes. -/
def ofText (s : RawText) : Path where
  slashes := slashesOf (s.takeWhile (· == slash)).length
  names := (pieces s).filter isName

/-- A path as a text; that of the folder one is in is a dot. -/
def text (p : Path) : RawText :=
  let t := List.replicate p.slashes slash ++ List.intercalate [slash] p.names
  if t.isEmpty then "." else t

/-- Whether a path starts from the top. -/
def isAbsolute (p : Path) : Bool := p.slashes != 0

/-- The path that leads on from another one, unless it starts from the top. -/
def join (p q : Path) : Path := if q.isAbsolute then q else { p with names := p.names ++ q.names }

/-- The last name of a path. -/
def name (p : Path) : RawText := p.names.getLast?.getD []

/-- Whether a text writes a path that can only lead to a folder. -/
def isFolderText (s : RawText) : Bool := !isName ((pieces s).getLast?.getD [])

end Path

end Mend
