import Mend.Text.Hex
import Mend.Toml.Value

/-!
# Quoted texts in a TOML document

A literal text stands between single quotes and has no escapes; a basic text stands between double
quotes and has some. Between triple quotes either may run over several lines, and in a basic text a
backslash at the end of a line joins it to the next word.
-/

namespace Mend.Toml

/-- White space within a line. -/
def isGap (c : Char) : Bool := c == ' ' || c == '\t'

/-- White space, newlines among it. -/
def isWideGap (c : Char) : Bool := isGap c || c == '\n'

/-- Control characters, which stand nowhere as they are; the tab is none of them. -/
def isControl (c : Char) : Bool := (c.toNat < 0x20 && c != '\t') || c.toNat == 0x7f

/-- Whether a character may not stand in a text as it is. -/
def isIllegal (multiline : Bool) (c : Char) : Bool := isControl c && !(multiline && c == '\n')

/-- Up to two quotes right behind a text between triple quotes belong to it. -/
def extraQuotes (quote : Char) (s : List Char) (t : List Char) : List Char × List Char :=
  let extra := (t.takeWhile (· == quote)).take 2
  (s ++ extra, t.drop extra.length)

/-- The text without a newline in front. -/
def dropNewline : List Char → List Char
  | '\n' :: rest => rest
  | t => t

/-! ## Literal texts -/

/-- Reads a literal text behind its opening quote. -/
def literal (t : List Char) : Read String :=
  let s := t.takeWhile (· != '\x27')
  match t.drop s.length with
  | [] => .error .malformed
  | _ :: rest => if s.any (isIllegal false) then .error .malformed else .ok (String.ofList s, rest)

/-- The text up to three single quotes, `done` being its characters so far, last first. -/
def untilTriple (done : List Char) : List Char → Option (List Char × List Char)
  | [] => none
  | '\x27' :: '\x27' :: '\x27' :: rest => some (done.reverse, rest)
  | c :: rest => untilTriple (c :: done) rest

/-- Reads a literal text of several lines behind its opening quotes. -/
def longLiteral (t : List Char) : Read String :=
  match untilTriple [] (dropNewline t) with
  | none => .error .malformed
  | some (s, rest) =>
    if s.any (isIllegal true) then .error .malformed
    else
      let (s, rest) := extraQuotes '\x27' s rest
      .ok (String.ofList s, rest)

/-! ## Basic texts -/

/-- What the next character of a basic text belongs to. -/
inductive Mode
  | plain
  /-- An escape, behind its backslash. -/
  | escape
  /-- The hexadecimal digits of a character: how many are missing, and their value so far. -/
  | code (missing value : Nat)
  /-- The white space behind a backslash, and whether the line has ended in it. -/
  | joint (ended : Bool)

/-- What a single letter after a backslash stands for. -/
def simpleEscape? (c : Char) : Option Char :=
  if c == 'b' then some '\x08'
  else if c == 't' then some '\t'
  else if c == 'n' then some '\n'
  else if c == 'f' then some '\x0c'
  else if c == 'r' then some '\r'
  else if c == '\x22' || c == '\\' then some c
  else none

/-- The character with a number. -/
def charOf? (n : Nat) : Option Char := if n.isValidChar then some (Char.ofNat n) else none

/-- Whether the next two characters are double quotes. -/
def closes : List Char → Bool
  | '\x22' :: '\x22' :: _ => true
  | _ => false

/-- A joint ends before the first character that is no white space, if the line has ended. -/
def Mode.before (c : Char) : Mode → Mode
  | .joint true => if isWideGap c then .joint true else .plain
  | m => m

/-- Reads a basic text from some place on, `done` being its characters so far, last first. -/
def basicFrom (multiline : Bool) (done : List Char) (mode : Mode) :
    List Char → Option (List Char × List Char)
  | [] => none
  | c :: rest =>
    match mode.before c with
    | .plain =>
      if c == '\x22' then
        if !multiline then some (done.reverse, rest)
        else if closes rest then some (done.reverse, rest.drop 2)
        else basicFrom multiline (c :: done) .plain rest
      else if c == '\\' then basicFrom multiline done .escape rest
      else if isIllegal multiline c then none
      else basicFrom multiline (c :: done) .plain rest
    | .escape =>
      if multiline && isGap c then basicFrom multiline done (.joint false) rest
      else if multiline && c == '\n' then basicFrom multiline done (.joint true) rest
      else if c == 'u' then basicFrom multiline done (.code 4 0) rest
      else if c == 'U' then basicFrom multiline done (.code 8 0) rest
      else match simpleEscape? c with
        | some e => basicFrom multiline (e :: done) .plain rest
        | none => none
    | .code missing value =>
      match Text.hexValue? c with
      | none => none
      | some d =>
        if 1 < missing then basicFrom multiline done (.code (missing - 1) (16 * value + d)) rest
        else match charOf? (16 * value + d) with
          | some e => basicFrom multiline (e :: done) .plain rest
          | none => none
    | .joint ended =>
      if c == '\n' then basicFrom multiline done (.joint true) rest
      else if isGap c then basicFrom multiline done (.joint ended) rest
      else none

/-- Reads a basic text behind its opening quote. -/
def basic (t : List Char) : Read String :=
  match basicFrom false [] .plain t with
  | some (s, rest) => .ok (String.ofList s, rest)
  | none => .error .malformed

/-- Reads a basic text of several lines behind its opening quotes. -/
def longBasic (t : List Char) : Read String :=
  match basicFrom true [] .plain (dropNewline t) with
  | some (s, rest) =>
    let (s, rest) := extraQuotes '\x22' s rest
    .ok (String.ofList s, rest)
  | none => .error .malformed

end Mend.Toml
