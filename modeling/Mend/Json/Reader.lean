import Mend.Json.Basic

/-!
# Reading JSON

A text holds one value, with white space around it. Of fields with the same name the last counts.
The words for doubles that are no finite numbers are read as well.
-/

namespace Mend

/-- Why a text is not read as JSON. -/
inductive JsonError
  | malformed
  /-- A whole number with more digits than are read. -/
  | tooManyDigits
  /-- Lists and records inside one another on more levels than are read. -/
  | tooDeep
  deriving DecidableEq, Repr

namespace Json

/-- The most digits that whole numbers are read with. -/
def digitLimit : Nat := 4300

/-- The most levels of lists and records that are read. -/
def levelLimit : Nat := 988

/-- White space between the parts of a value. -/
def isGap (c : Char) : Bool := c == ' ' || c == '\t' || c == '\n' || c == '\r'

/-- The text without the white space in front. -/
def skipGap (t : List Char) : List Char := t.dropWhile isGap

/-! ## Texts -/

/-- What a single letter after a backslash stands for. -/
def simpleEscape? (c : Char) : Option Char :=
  if c == '\x22' then some '\x22'
  else if c == '\\' then some '\\'
  else if c == '/' then some '/'
  else if c == 'b' then some '\x08'
  else if c == 'f' then some '\x0c'
  else if c == 'n' then some '\n'
  else if c == 'r' then some '\r'
  else if c == 't' then some '\t'
  else none

/-- The second half of a surrogate pair, written at the front of a text. -/
def lowHalf? : List Char → Option (Nat × List Char)
  | '\\' :: 'u' :: a :: b :: c :: d :: rest =>
    match Text.ofHex? [a, b, c, d] with
    | some n => if Point.isLow n then some (n, rest) else none
    | none => none
  | _ => none

/-- Reads a text up to and with the closing quote, `done` being the code points so far, last first;
`fuel` bounds the number of characters. -/
def readText (done : RawText) : Nat → List Char → Option (RawText × List Char)
  | 0, _ => none
  | _, [] => none
  | fuel + 1, c :: rest =>
    if c == '\x22' then some (done.reverse, rest)
    else if c.toNat < 0x20 then none
    else if c != '\\' then readText (.char c :: done) fuel rest
    else match rest with
      | 'u' :: a :: b :: c :: d :: rest =>
        match Text.ofHex? [a, b, c, d] with
        | none => none
        | some n =>
          match (if Point.isHigh n then lowHalf? rest else none) with
          | some (low, rest) => readText (.ofPair n low :: done) fuel rest
          | none => readText (.ofCode n :: done) fuel rest
      | e :: rest =>
        match simpleEscape? e with
        | some c => readText (.char c :: done) fuel rest
        | none => none
      | [] => none

/-! ## Numbers -/

/-- The value of a run of ASCII digits. -/
def digitsValue (ds : List Char) : Nat := ds.foldl (fun n c => 10 * n + (c.toNat - '0'.toNat)) 0

/-- The fraction at the front of a text: its digits, and the rest. -/
def fraction (t : List Char) : List Char × List Char :=
  match t with
  | '.' :: rest =>
    let ds := rest.takeWhile Char.isDigit
    if ds.isEmpty then ([], t) else (ds, rest.drop ds.length)
  | _ => ([], t)

/-- The exponent at the front of a text, if there is one, and the rest. -/
def exponent (t : List Char) : Option Int × List Char :=
  match t with
  | e :: rest =>
    if e == 'e' || e == 'E' then
      let negative := rest.head? == some '-'
      let unsigned := if negative || rest.head? == some '+' then rest.drop 1 else rest
      let ds := unsigned.takeWhile Char.isDigit
      if ds.isEmpty then (none, t)
      else (some (signed negative (digitsValue ds)), unsigned.drop ds.length)
    else (none, t)
  | [] => (none, t)

/-- Reads a number without its sign. -/
def readNumber (negative : Bool) (t : List Char) : Except JsonError (Json × List Char) :=
  let ds := if t.head? == some '0' then ['0'] else t.takeWhile Char.isDigit
  if ds.isEmpty then .error .malformed
  else
    let (places, afterFraction) := fraction (t.drop ds.length)
    let (power, rest) := exponent afterFraction
    if places.isEmpty && power.isNone then
      if digitLimit < ds.length then .error .tooManyDigits
      else .ok (.int (signed negative (digitsValue ds)), rest)
    else
      .ok (.float (ofDecimal negative
        ⟨digitsValue (ds ++ places), power.getD 0 - places.length⟩), rest)

/-- The words that are values. -/
def words : List (List Char × Json) := [
  ("null".toList, .null), ("true".toList, .bool true), ("false".toList, .bool false),
  ("NaN".toList, .float (0.0 / 0.0)), ("Infinity".toList, .float (1.0 / 0.0)),
  ("-Infinity".toList, .float (-1.0 / 0.0))]

/-- Reads a word or a number. -/
def readAtom (t : List Char) : Except JsonError (Json × List Char) :=
  match words.find? fun w => w.1.isPrefixOf t with
  | some (w, v) => .ok (v, t.drop w.length)
  | none =>
    match t with
    | '-' :: rest => readNumber true rest
    | _ => readNumber false t

/-! ## Values -/

mutual

/-- Reads a value at the front of a text without white space in front of it, with `levels` more
levels allowed. A value takes two steps for each of its characters at most, so that twice the length
of the text is fuel enough. -/
def readValue (fuel levels : Nat) (t : List Char) : Except JsonError (Json × List Char) :=
  match fuel with
  | 0 => .error .malformed
  | fuel + 1 =>
    match t with
    | [] => .error .malformed
    | c :: rest =>
      if c == '\x22' then
        match readText [] fuel rest with
        | some (s, rest) => .ok (.text s, rest)
        | none => .error .malformed
      else if c == '[' then
        if levels = 0 then .error .tooDeep
        else match skipGap rest with
          | ']' :: rest => .ok (.list [], rest)
          | rest => readItems fuel (levels - 1) [] rest
      else if c == '\x7b' then
        if levels = 0 then .error .tooDeep
        else match skipGap rest with
          | '\x7d' :: rest => .ok (.record [], rest)
          | rest => readFields fuel (levels - 1) [] rest
      else readAtom t

/-- Reads the items of a list up to and with the closing bracket. -/
def readItems (fuel levels : Nat) (done : List Json) (t : List Char) :
    Except JsonError (Json × List Char) :=
  match fuel with
  | 0 => .error .malformed
  | fuel + 1 =>
    match readValue fuel levels t with
    | .error e => .error e
    | .ok (v, rest) =>
      match skipGap rest with
      | ',' :: rest => readItems fuel levels (v :: done) (skipGap rest)
      | ']' :: rest => .ok (.list (v :: done).reverse, rest)
      | _ => .error .malformed

/-- Reads the fields of a record up to and with the closing brace. -/
def readFields (fuel levels : Nat) (done : List (RawText × Json)) (t : List Char) :
    Except JsonError (Json × List Char) :=
  match fuel with
  | 0 => .error .malformed
  | fuel + 1 =>
    match t with
    | '\x22' :: rest =>
      match readText [] fuel rest with
      | none => .error .malformed
      | some (name, rest) =>
        match skipGap rest with
        | ':' :: rest =>
          match readValue fuel levels (skipGap rest) with
          | .error e => .error e
          | .ok (v, rest) =>
            let done := setField name v done
            match skipGap rest with
            | ',' :: rest => readFields fuel levels done (skipGap rest)
            | '\x7d' :: rest => .ok (.record done, rest)
            | _ => .error .malformed
        | _ => .error .malformed
    | _ => .error .malformed

end

/-- Reads the value that a text holds. -/
def ofChars (t : List Char) : Except JsonError Json :=
  match readValue (2 * t.length + 2) levelLimit (skipGap t) with
  | .error e => .error e
  | .ok (v, rest) => if (skipGap rest).isEmpty then .ok v else .error .malformed

end Json

end Mend
