import Mend.Calendar
import Mend.Number.Decimal
import Mend.Text.Hex
import Mend.Toml.Value

/-!
# Numbers, dates and words in a TOML document

Underscores may stand between the digits of a number, one at a time. Only decimal whole numbers have
a sign and a limit to their digits.
-/

namespace Mend.Toml

/-! ## Digits -/

/-- The digits at the front of a text, with single underscores between them left out, and the rest:
`done` holds the digits so far, last first. -/
def digitsFrom (isDigit : Char → Bool) (done : List Char) : List Char → List Char × List Char
  | [] => (done.reverse, [])
  | [c] => if isDigit c then ((c :: done).reverse, []) else (done.reverse, [c])
  | c :: d :: rest =>
    if isDigit c then digitsFrom isDigit (c :: done) (d :: rest)
    else if c == '_' && !done.isEmpty && isDigit d then digitsFrom isDigit done (d :: rest)
    else (done.reverse, c :: d :: rest)

/-- The digits at the front of a text, and the rest. -/
def digits (isDigit : Char → Bool) (t : List Char) : List Char × List Char :=
  digitsFrom isDigit [] t

/-- The value of digits in a base up to 16. -/
def valueIn (base : Nat) (ds : List Char) : Nat :=
  ds.foldl (fun n c => base * n + (Text.hexValue? c).getD 0) 0

/-! ## Numbers -/

/-- The most digits that decimal whole numbers are read with. -/
def digitLimit : Nat := 4300

/-- The bases that whole numbers are written in besides ten, by the letter behind the zero. -/
def base? (letter : Char) : Option Nat :=
  if letter == 'x' then some 16
  else if letter == 'o' then some 8
  else if letter == 'b' then some 2
  else none

/-- Whether a character is a digit in a base. -/
def isDigitIn (base : Nat) (c : Char) : Bool := (Text.hexValue? c).any (· < base)

/-- A whole number in another base than ten. -/
def basedNumber? : List Char → Option (Int × List Char)
  | '0' :: letter :: t =>
    match base? letter with
    | none => none
    | some base =>
      let (ds, rest) := digits (isDigitIn base) t
      if ds.isEmpty then none else some (valueIn base ds, rest)
  | _ => none

/-- The sign at the front of a text: whether it is a minus, and the rest. -/
def sign : List Char → Bool × List Char
  | '-' :: rest => (true, rest)
  | '+' :: rest => (false, rest)
  | t => (false, t)

/-- The digits of a whole part: a single zero, or digits that do not begin with one. -/
def wholeDigits (t : List Char) : List Char × List Char :=
  if t.head? == some '0' then (['0'], t.drop 1) else digits Char.isDigit t

/-- The digits behind a point; none if there is no point with a digit behind it. -/
def fraction (t : List Char) : List Char × List Char :=
  match t with
  | '.' :: behind =>
    let (ds, rest) := digits Char.isDigit behind
    if ds.isEmpty then ([], t) else (ds, rest)
  | _ => ([], t)

/-- The exponent, if there is one. -/
def exponent (t : List Char) : Option Int × List Char :=
  match t with
  | e :: behind =>
    if e == 'e' || e == 'E' then
      let (negative, unsigned) := sign behind
      let (ds, rest) := digits Char.isDigit unsigned
      if ds.isEmpty then (none, t) else (some (signed negative (valueIn 10 ds)), rest)
    else (none, t)
  | [] => (none, t)

/-- A decimal number. -/
def decimalNumber? (t : List Char) : Option (Read Value) :=
  let (negative, unsigned) := sign t
  let (whole, afterWhole) := wholeDigits unsigned
  if whole.isEmpty then none
  else
    let (places, afterFraction) := fraction afterWhole
    let (power, rest) := exponent afterFraction
    if places.isEmpty && power.isNone then
      if digitLimit < whole.length then some (.error .tooManyDigits)
      else some (.ok (.int (signed negative (valueIn 10 whole)), rest))
    else
      let d : Decimal := ⟨valueIn 10 (whole ++ places), power.getD 0 - places.length⟩
      some (.ok (.float (ofDecimal negative d), rest))

/-! ## Dates and times -/

/-- A number of just so many digits. -/
def exactDigits? (count : Nat) (t : List Char) : Option (Nat × List Char) :=
  let ds := t.take count
  if ds.length = count && ds.all Char.isDigit then some (valueIn 10 ds, t.drop count) else none

/-- The rest behind a given character. -/
def behind? (c : Char) : List Char → Option (List Char)
  | d :: rest => if c == d then some rest else none
  | [] => none

/-- A number of two digits within bounds. -/
def twoDigits? (low high : Nat) (t : List Char) : Option (Nat × List Char) :=
  match exactDigits? 2 t with
  | some (n, rest) => if low ≤ n && n ≤ high then some (n, rest) else none
  | none => none

/-- Hours and minutes: the rest behind them. -/
def hourMinute? (t : List Char) : Option (List Char) :=
  match twoDigits? 0 23 t with
  | none => none
  | some (_, rest) =>
    match behind? ':' rest with
    | none => none
    | some rest => (twoDigits? 0 59 rest).map (·.2)

/-- The rest behind the fraction of a second, if there is one. -/
def dropFraction (t : List Char) : List Char :=
  match t with
  | '.' :: behind =>
    let ds := behind.takeWhile Char.isDigit
    if ds.isEmpty then t else behind.drop ds.length
  | _ => t

/-- A time of day: the rest behind it. -/
def timeOfDay? (t : List Char) : Option (List Char) :=
  match hourMinute? t with
  | none => none
  | some rest =>
    match behind? ':' rest with
    | none => none
    | some rest => (twoDigits? 0 59 rest).map fun second => dropFraction second.2

/-- The rest behind the distance from universal time, if it is given. -/
def dropOffset (t : List Char) : List Char :=
  match t with
  | c :: rest =>
    if c == 'Z' || c == 'z' then rest
    else if c == '+' || c == '-' then (hourMinute? rest).getD t
    else t
  | [] => t

/-- The rest behind a time of day that follows a date, if one does. -/
def dropTime (t : List Char) : List Char :=
  match t with
  | c :: rest =>
    if c == 'T' || c == 't' || c == ' ' then ((timeOfDay? rest).map dropOffset).getD t else t
  | [] => t

/-- How many days a month has. -/
def daysIn (year month : Nat) : Nat :=
  if month = 2 then
    if year % 4 = 0 && (year % 100 ≠ 0 || year % 400 = 0) then 29 else 28
  else if month = 4 || month = 6 || month = 9 || month = 11 then 30
  else 31

/-- A date that is written as one, with the rest behind it: whether there is such a day. -/
def date? (t : List Char) : Option (Bool × List Char) :=
  match exactDigits? 4 t with
  | none => none
  | some (year, rest) =>
    match (behind? '-' rest).bind (twoDigits? 1 12) with
    | none => none
    | some (month, rest) =>
      match (behind? '-' rest).bind (twoDigits? 1 31) with
      | none => none
      | some (day, rest) => some (0 < year && day ≤ daysIn year month, rest)

/-- A date with or without a time, or a time alone. -/
def moment? (t : List Char) : Option (Read Value) :=
  let written (rest : List Char) : Value :=
    .moment (String.ofList (t.take (t.length - rest.length)))
  match date? t with
  | some (true, rest) =>
    let rest := dropTime rest
    some (.ok (written rest, rest))
  | some (false, _) => some (.error .malformed)
  | none => (timeOfDay? t).map fun rest => .ok (written rest, rest)

/-! ## Words -/

/-- The words that are values. -/
def words : List (List Char × Value) :=
  let nan := 0.0 / 0.0
  let inf := 1.0 / 0.0
  [("true".toList, .bool true), ("false".toList, .bool false),
    ("inf".toList, .float inf), ("+inf".toList, .float inf), ("-inf".toList, .float (-inf)),
    ("nan".toList, .float nan), ("+nan".toList, .float nan), ("-nan".toList, .float nan)]

/-- A word that is a value. -/
def word? (t : List Char) : Option (Read Value) :=
  (words.find? fun w => w.1.isPrefixOf t).map fun w => .ok (w.2, t.drop w.1.length)

/-- A number. -/
def number? (t : List Char) : Option (Read Value) :=
  match basedNumber? t with
  | some (n, rest) => some (.ok (.int n, rest))
  | none => decimalNumber? t

/-- Reads a value that is no text and has no parts. -/
def scalar (t : List Char) : Read Value :=
  ((word? t).orElse fun _ => (moment? t).orElse fun _ => number? t).getD (.error .malformed)

end Mend.Toml
