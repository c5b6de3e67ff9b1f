import Mend.Number.Decimal
import Mend.Text.Blank
import Mend.Text.Digit

/-!
# Numerals

A numeral is a number written as a text: with white space around it, a sign, and digits of any
script, between which single underscores may stand. A whole number is digits only. A double may
have a point with digits on either side of it, or on one, and an exponent; infinity and what is not
a number are written as words.
-/

namespace Mend.Numeral

/-- The most digits that whole numbers are read with. -/
def digitLimit : Nat := 4300

/-- A character of a numeral in ASCII: a digit of any script as that digit, and white space as a
blank. All other characters stand for themselves. -/
def plainChar (c : Char) : Char :=
  if c.toNat < 0x7f then c
  else if Text.isBlank c then ' '
  else match Text.digitValue? c with
    | some d => Char.ofNat ('0'.toNat + d)
    | none => c

/-- A text without the white space at both ends. -/
def bare (t : List Char) : List Char :=
  ((t.dropWhile Text.isAsciiBlank).reverse.dropWhile Text.isAsciiBlank).reverse

/-- The characters of a numeral in ASCII, without the white space around it. -/
def plain (t : List Char) : List Char := bare (t.map plainChar)

/-- The characters without the underscores, each of which must stand between two digits; `done`
holds those before, last first, and `before` the last character, if there is one. -/
def joinedFrom (done : List Char) (before : Option Char) : List Char → Option (List Char)
  | [] => if before == some '_' then none else some done.reverse
  | c :: rest =>
    if c == '_' then
      if before.any Char.isDigit then joinedFrom done (some c) rest else none
    else if before == some '_' && !c.isDigit then none
    else joinedFrom (c :: done) (some c) rest

/-- The characters of a numeral without its underscores. -/
def joined (t : List Char) : Option (List Char) := joinedFrom [] none t

/-- The sign in front: whether it is a minus, and the rest. -/
def sign : List Char → Bool × List Char
  | '-' :: rest => (true, rest)
  | '+' :: rest => (false, rest)
  | t => (false, t)

/-- The value of ASCII digits. -/
def value (ds : List Char) : Nat := ds.foldl (fun n c => 10 * n + (c.toNat - '0'.toNat)) 0

/-- Whether a text is digits only, at least one of them. -/
def isDigits (t : List Char) : Bool := !t.isEmpty && t.all Char.isDigit

/-- The whole number that a numeral without underscores writes. -/
def wholeOf? (t : List Char) : Option Int :=
  let (negative, ds) := sign t
  if isDigits ds && ds.length ≤ digitLimit then some (signed negative (value ds)) else none

/-- The whole number that a numeral writes. -/
def whole? (t : List Char) : Option Int := (joined (plain t)).bind wholeOf?

/-! ## Doubles -/

/-- The words for doubles that are no finite numbers, without their sign. -/
def word? (t : List Char) : Option Float :=
  let lower := t.map Char.toLower
  if lower == "inf".toList || lower == "infinity".toList then some (1.0 / 0.0)
  else if lower == "nan".toList then some (0.0 / 0.0)
  else none

/-- The digits behind a point in front of a text, and the rest. -/
def fraction : List Char → List Char × List Char
  | '.' :: rest => rest.span Char.isDigit
  | t => ([], t)

/-- The exponent that is all of a text; 0 if there is none. -/
def exponent? : List Char → Option Int
  | [] => some 0
  | e :: rest =>
    let (negative, ds) := sign rest
    if (e == 'e' || e == 'E') && isDigits ds then some (signed negative (value ds)) else none

/-- The decimal number that is all of a text. -/
def decimal? (t : List Char) : Option Decimal :=
  let (ds, afterWhole) := t.span Char.isDigit
  let (places, afterFraction) := fraction afterWhole
  if ds.isEmpty && places.isEmpty then none
  else (exponent? afterFraction).map fun power =>
    ⟨value (ds ++ places), power - places.length⟩

/-- The double that a numeral without underscores writes. -/
def doubleOf? (t : List Char) : Option Float :=
  let (negative, unsigned) := sign t
  match word? unsigned with
  | some x => some (if negative then -x else x)
  | none => (decimal? unsigned).map (ofDecimal negative)

/-- The double nearest to the number that a numeral writes. -/
def double? (t : List Char) : Option Float := (joined (plain t)).bind doubleOf?

end Mend.Numeral
