import Mend.Text.Blank
import Mend.Text.Word

/-!
# Texts

A text is the list of its characters, so that offsets, lengths and columns count characters and
every operation is a function on lists.

* `lines` splits at every newline and at nothing else, and `unlines` puts the newlines back, so
  that `unlines (lines t) = t`.
* `trim` takes white space off both ends; `indent` is the white space a line begins with.
* `contains` looks for one text inside another; `mentions` looks for a whole identifier.
-/

namespace Mend

/-- A text, character by character. -/
abbrev Text := List Char

namespace Text

/-- The lines of a text. A newline at the end is followed by an empty last line. -/
def lines (t : Text) : List Text := t.splitOn '\n'

/-- Puts a newline between the lines. -/
def unlines (ls : List Text) : Text := List.intercalate ['\n'] ls

theorem unlines_lines (t : Text) : unlines (lines t) = t := by
  simp [unlines, lines]

/-- The text without the white space in front. -/
def trimLeft (t : Text) : Text := t.dropWhile isBlank

/-- The text without the white space at the end. -/
def trimRight (t : Text) : Text := (t.reverse.dropWhile isBlank).reverse

/-- The text without the white space at both ends. -/
def trim (t : Text) : Text := trimRight (trimLeft t)

/-- The white space that a line begins with. -/
def indent (line : Text) : Text := line.takeWhile isBlank

/-- How many characters at the front of a text have a property, added to `n`. -/
def runFrom (p : Char → Bool) (n : Nat) : Text → Nat
  | [] => n
  | c :: rest => if p c then runFrom p (n + 1) rest else n

/-- How many characters at the front of a text have a property. -/
def run (p : Char → Bool) (t : Text) : Nat := runFrom p 0 t

theorem runFrom_eq (p : Char → Bool) (n : Nat) (t : Text) :
    runFrom p n t = (t.takeWhile p).length + n := by
  induction t generalizing n with
  | nil => simp [runFrom]
  | cons c rest ih =>
    by_cases h : p c
    · simp [runFrom, h, ih]
      omega
    · simp [runFrom, h]

theorem run_eq (p : Char → Bool) (t : Text) : run p t = (t.takeWhile p).length := by
  simp [run, runFrom_eq]

/-- The pieces between runs of white space. -/
def words (t : Text) : List Text := (t.splitOnP isBlank).filter fun w => !w.isEmpty

/-- Whether `needle` occurs in a text. -/
def contains (needle : Text) : Text → Bool
  | [] => needle.isEmpty
  | c :: rest => needle.isPrefixOf (c :: rest) || contains needle rest

/-- The position that an offset means: a negative one counts from the end, and none lies outside. -/
def position (t : Text) (offset : Int) : Nat :=
  if offset < 0 then (t.length + offset).toNat else min offset.toNat t.length

/-- The line, counted from 1, on which the character at an offset stands. -/
def lineAt (t : Text) (offset : Int) : Nat := (t.take (t.position offset)).count '\n' + 1

/-- Whether an identifier can end before this text. -/
def endsName : Text → Bool
  | [] => true
  | c :: _ => !isNameChar c

/-- Looks for `name` from a place on, knowing whether an identifier can start there. -/
def mentionsFrom (name : Text) (fresh : Bool) : Text → Bool
  | [] => fresh && name.isEmpty
  | c :: rest =>
    (fresh && name.isPrefixOf (c :: rest) && endsName ((c :: rest).drop name.length))
      || mentionsFrom name (!isNameChar c) rest

/-- Whether `name` occurs in a text as a whole identifier: no word character and no dollar sign
stands on either side of it. -/
def mentions (name t : Text) : Bool := mentionsFrom name true t

end Text

end Mend
