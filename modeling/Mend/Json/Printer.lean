import Mend.Json.Basic

/-!
# Writing JSON

Only printable ASCII characters are written as they are. Values are written on one line, or indented
by two blanks a level.
-/

namespace Mend.Json

/-- The escape of a UTF-16 unit. -/
def unitEscape (n : Nat) : List Char := '\\' :: 'u' :: Text.hex 4 n

/-- How a character is written between quotes. -/
def escaped (c : Char) : List Char :=
  if c == '\x22' then ['\\', '\x22']
  else if c == '\\' then ['\\', '\\']
  else if c == '\n' then ['\\', 'n']
  else if c == '\r' then ['\\', 'r']
  else if c == '\t' then ['\\', 't']
  else if c == '\x08' then ['\\', 'b']
  else if c == '\x0c' then ['\\', 'f']
  else
    let n := c.toNat
    if 0x20 ≤ n && n < 0x7f then [c]
    else if n < 0x10000 then unitEscape n
    else
      unitEscape (0xd800 + (n - 0x10000) / 0x400) ++ unitEscape (0xdc00 + (n - 0x10000) % 0x400)

/-- How a code point is written between quotes. -/
def escapedPoint : Point → List Char
  | .char c => escaped c
  | .half n => unitEscape (Point.half n).code

/-- A text between quotes. -/
def quote (s : RawText) : String :=
  "\x22" ++ String.ofList (s.flatMap escapedPoint) ++ "\x22"

/-- A double. Those that are no finite numbers are written as words. -/
def number (x : Float) : String :=
  if x.isNaN then "NaN"
  else if x.isInf then (if x < 0.0 then "-Infinity" else "Infinity")
  else shortest x

/-- The beginning of a new line at a level of indentation. -/
def newLine (level : Nat) : String := "\n" ++ String.ofList (List.replicate (2 * level) ' ')

mutual

/-- Writes a value on one line. -/
def compact : Json → String
  | null => "null"
  | bool b => if b then "true" else "false"
  | int n => toString n
  | float x => number x
  | text s => quote s
  | list xs => "[" ++ compactItems xs ++ "]"
  | record fields => "\x7b" ++ compactFields fields ++ "\x7d"

/-- Writes the items of a list on one line. -/
def compactItems : List Json → String
  | [] => ""
  | [x] => compact x
  | x :: y :: rest => compact x ++ ", " ++ compactItems (y :: rest)

/-- Writes the fields of a record on one line. -/
def compactFields : List (RawText × Json) → String
  | [] => ""
  | [(n, v)] => quote n ++ ": " ++ compact v
  | (n, v) :: f :: rest => quote n ++ ": " ++ compact v ++ ", " ++ compactFields (f :: rest)

end

mutual

/-- Writes a value, indented from the given level on. -/
def indentedAt (level : Nat) : Json → String
  | null => "null"
  | bool b => if b then "true" else "false"
  | int n => toString n
  | float x => number x
  | text s => quote s
  | list [] => "[]"
  | list (x :: xs) =>
    "[" ++ newLine (level + 1) ++ indentedItems (level + 1) (x :: xs) ++ newLine level ++ "]"
  | record [] => "\x7b\x7d"
  | record (f :: fields) =>
    "\x7b" ++ newLine (level + 1) ++ indentedFields (level + 1) (f :: fields)
      ++ newLine level ++ "\x7d"

/-- Writes the items of a list, one a line. -/
def indentedItems (level : Nat) : List Json → String
  | [] => ""
  | [x] => indentedAt level x
  | x :: y :: rest =>
    indentedAt level x ++ "," ++ newLine level ++ indentedItems level (y :: rest)

/-- Writes the fields of a record, one a line. -/
def indentedFields (level : Nat) : List (RawText × Json) → String
  | [] => ""
  | [(n, v)] => quote n ++ ": " ++ indentedAt level v
  | (n, v) :: f :: rest =>
    quote n ++ ": " ++ indentedAt level v ++ "," ++ newLine level
      ++ indentedFields level (f :: rest)

end

/-- Writes a value, indented. -/
def indented (v : Json) : String := indentedAt 0 v

end Mend.Json
