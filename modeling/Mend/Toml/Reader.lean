import Mend.Toml.Document
import Mend.Toml.Quoted
import Mend.Toml.Scalar

/-!
# Reading TOML documents

A document is a row of statements, each on a line of its own: a header leads to a table, and what
follows sets the entries of that table.
-/

namespace Mend.Toml

/-- The text without white space of a line in front. -/
def skipGap (t : List Char) : List Char := t.dropWhile isGap

/-- The text without a comment in front, which runs to the end of the line. -/
def skipComment (t : List Char) : Except Error (List Char) :=
  match t with
  | '#' :: rest =>
    let comment := rest.takeWhile (· != '\n')
    if comment.any isControl then .error .malformed else .ok (rest.drop comment.length)
  | _ => .ok t

/-- The text without white space, newlines and comments in front; `fuel` bounds the number of
comments. -/
def skipWide : Nat → List Char → Except Error (List Char)
  | 0, t => .ok t
  | fuel + 1, t =>
    match skipComment (t.dropWhile isWideGap) with
    | .error e => .error e
    | .ok rest => if rest.length < t.length then skipWide fuel rest else .ok rest

/-! ## Names -/

/-- The characters of a name without quotes. -/
def isBare (c : Char) : Bool := c.isAlphanum || c == '-' || c == '_'

/-- Reads one part of a name. -/
def namePart (t : List Char) : Read String :=
  match t with
  | '\x27' :: rest => literal rest
  | '\x22' :: rest => basic rest
  | _ =>
    let bare := t.takeWhile isBare
    if bare.isEmpty then .error .malformed else .ok (String.ofList bare, t.drop bare.length)

/-- Reads a name from one of its parts on, the parts before it being given last first. The parts are
answered last first as well; `fuel` bounds their number. -/
def nameFrom (parts : List String) : Nat → List Char → Read (List String)
  | 0, _ => .error .malformed
  | fuel + 1, t =>
    match namePart t with
    | .error e => .error e
    | .ok (part, rest) =>
      match skipGap rest with
      | '.' :: rest => nameFrom (part :: parts) fuel (skipGap rest)
      | rest => .ok (part :: parts, rest)

/-- A name: the parts in front of its last part, and its last part. -/
structure Name where
  parts : List String
  last : String

/-- All parts of a name. -/
def Name.path (n : Name) : List String := n.parts ++ [n.last]

/-- Reads a name and the white space behind it. -/
def name (t : List Char) : Read Name :=
  match nameFrom [] (t.length + 1) t with
  | .error e => .error e
  | .ok ([], _) => .error .malformed
  | .ok (last :: parts, rest) => .ok (⟨parts.reverse, last⟩, rest)

/-- Reads a name with the equals sign and the white space behind it. -/
def assignment (t : List Char) : Read Name :=
  match name t with
  | .error e => .error e
  | .ok (n, '=' :: rest) => .ok (n, skipGap rest)
  | .ok _ => .error .malformed

/-! ## Values -/

/-- Reads a text, whichever quotes it stands between. -/
def quoted (t : List Char) : Option (Read Value) :=
  let read (r : Read String) : Option (Read Value) := some (r.map fun p => (.text p.1, p.2))
  match t with
  | '\x22' :: '\x22' :: '\x22' :: rest => read (longBasic rest)
  | '\x22' :: rest => read (basic rest)
  | '\x27' :: '\x27' :: '\x27' :: rest => read (longLiteral rest)
  | '\x27' :: rest => read (literal rest)
  | _ => none

/-- The depth to which values are read. -/
def depthLimit : Nat := 988

/-- How much deeper the items of a list are than the list. -/
def listDepth : Nat := 2

/-- How much deeper the fields of a table in braces are than the table. -/
def tableDepth : Nat := 3

mutual

/-- Reads a value, with `room` left to the depth limit. A value takes two steps for each of its
characters at most, so that twice the length of the text is fuel enough. -/
def value (room : Nat) : Nat → List Char → Read Value
  | 0, _ => .error .malformed
  | fuel + 1, t =>
    match t with
    | '[' :: rest =>
      if room < listDepth then .error .tooDeep
      else match skipWide rest.length rest with
        | .error e => .error e
        | .ok (']' :: rest) => .ok (.list [], rest)
        | .ok rest => items (room - listDepth) fuel [] rest
    | '\x7b' :: rest =>
      if room < tableDepth then .error .tooDeep
      else match skipGap rest with
        | '\x7d' :: rest => .ok (.table [], rest)
        | rest => fields (room - tableDepth) fuel [] rest
    | _ => (quoted t).getD (scalar t)

/-- Reads the items of a list up to and with the closing bracket, those before them being given last
first. -/
def items (room : Nat) : Nat → List Value → List Char → Read Value
  | 0, _, _ => .error .malformed
  | fuel + 1, done, t =>
    match value room fuel t with
    | .error e => .error e
    | .ok (v, rest) =>
      match skipWide rest.length rest with
      | .error e => .error e
      | .ok (']' :: rest) => .ok (.list (v :: done).reverse, rest)
      | .ok (',' :: rest) =>
        match skipWide rest.length rest with
        | .error e => .error e
        | .ok (']' :: rest) => .ok (.list (v :: done).reverse, rest)
        | .ok rest => items room fuel (v :: done) rest
      | .ok _ => .error .malformed

/-- Reads the fields of a table in braces up to and with the closing brace, those before them being
given. -/
def fields (room : Nat) : Nat → Entries → List Char → Read Value
  | 0, _, _ => .error .malformed
  | fuel + 1, done, t =>
    match assignment t with
    | .error e => .error e
    | .ok (n, rest) =>
      match value room fuel rest with
      | .error e => .error e
      | .ok (v, rest) =>
        match Entries.putDotted? 0 n.parts n.last v done with
        | none => .error .malformed
        | some done =>
          match skipGap rest with
          | '\x7d' :: rest => .ok (.table (entryValues done), rest)
          | ',' :: rest => fields room fuel done (skipGap rest)
          | _ => .error .malformed

end

/-! ## Statements -/

/-- A document as far as it is read: its tables, the header that the entries belong to, and the
number of headers so far. -/
structure Reading where
  entries : Entries := []
  header : List String := []
  headers : Nat := 0

namespace Reading

/-- Reads a header up to and with its closing brackets and goes to the table that `make` makes of
it. -/
def goTo (r : Reading) (closing : List Char) (make : String → Entries → Option Entries)
    (t : List Char) : Read Reading :=
  match name (skipGap t) with
  | .error e => .error e
  | .ok (n, rest) =>
    match Entries.along? (make n.last) n.parts r.entries with
    | none => .error .malformed
    | some entries =>
      if closing.isPrefixOf rest then
        .ok (⟨entries, n.path, r.headers + 1⟩, rest.drop closing.length)
      else .error .malformed

/-- Reads an entry. -/
def entry (r : Reading) (t : List Char) : Read Reading :=
  match assignment t with
  | .error e => .error e
  | .ok (n, rest) =>
    match value depthLimit (2 * rest.length + 2) rest with
    | .error e => .error e
    | .ok (v, rest) =>
      match Entries.along? (Entries.putDotted? r.headers n.parts n.last v) r.header r.entries with
      | none => .error .malformed
      | some entries => .ok ({ r with entries }, rest)

/-- Reads a statement, of which an empty line is one. -/
def statement (r : Reading) (t : List Char) : Read Reading :=
  match t with
  | '[' :: '[' :: rest => r.goTo "]]".toList Entries.extend? rest
  | '[' :: rest => r.goTo "]".toList Entries.declare? rest
  | [] => .ok (r, t)
  | c :: _ => if c == '\n' || c == '#' then .ok (r, t) else r.entry t

/-- Reads the rest of a line behind a statement: white space, a comment and the newline. -/
def lineEnd (t : List Char) : Except Error (List Char) :=
  match skipComment (skipGap t) with
  | .error e => .error e
  | .ok [] => .ok []
  | .ok ('\n' :: rest) => .ok rest
  | .ok _ => .error .malformed

/-- Reads lines up to the end of the text; `fuel` bounds their number. -/
def lines : Nat → Reading → List Char → Except Error Reading
  | 0, _, _ => .error .malformed
  | _, r, [] => .ok r
  | fuel + 1, r, t =>
    match r.statement (skipGap t) with
    | .error e => .error e
    | .ok (r, rest) =>
      match lineEnd rest with
      | .error e => .error e
      | .ok rest => lines fuel r rest

end Reading

/-- Puts one more character in front of those read so far, which are given last first; a newline
takes the place of a carriage return right before it. -/
def addChar (done : List Char) (c : Char) : List Char :=
  match done with
  | '\r' :: earlier => if c == '\n' then c :: earlier else c :: done
  | _ => c :: done

/-- A text in which every carriage return with a newline behind it is left out. -/
def dropReturns (t : List Char) : List Char := (t.foldl addChar []).reverse

/-- The entries of the document that a text holds. -/
def ofText (t : List Char) : Except Error (List (String × Value)) :=
  let t := dropReturns t
  (Reading.lines (t.length + 1) {} t).map fun r => entryValues r.entries

end Mend.Toml
