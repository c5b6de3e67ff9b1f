import Mend.Number.Double

/-!
# Doubles in decimal notation

* `shortest` writes the fewest digits that read back as the same double, and of those the nearest.
* `fixed` writes a given number of places, rounded from the exact value, a half going to the even
  neighbour.
* `ofDecimal` is the double nearest to a decimal number.
-/

namespace Mend

/-- A decimal number: `digits` times ten to the `exponent`. -/
structure Decimal where
  digits : Nat
  exponent : Int
  deriving DecidableEq, Repr

namespace Decimal

/-! ## The fewest digits -/

/-- How often a number below the denominator must be multiplied by ten to reach it; `fuel` bounds
the count. -/
def zerosBefore (num den : Nat) : Nat → Nat
  | 0 => 0
  | fuel + 1 => if den ≤ num then 0 else zerosBefore (10 * num) den fuel + 1

/-- The power of ten at or below a positive fraction. -/
def magnitude (num den : Nat) : Int :=
  if den ≤ num then ((toString (num / den)).length : Int) - 1
  else -(zerosBefore num den 400 : Int)

/-- The numbers that read as one double: those from `low` to `high`, the bounds themselves included
if `closed`. All three numbers count the same unit, the fraction `num / den`. -/
structure Interval where
  low : Nat
  value : Nat
  high : Nat
  closed : Bool
  num : Nat
  den : Nat

/-- The numbers that read as the double with this mantissa and exponent. Below a power of two the
next double is only half as far away. -/
def Interval.ofDouble (mantissa : Nat) (exponent : Int) : Interval :=
  let (num, den) := powFraction 2 (exponent - 2)
  let narrow := mantissa = Double.hiddenBit && Double.leastExponent < exponent
  { low := if narrow then 4 * mantissa - 1 else 4 * mantissa - 2
    value := 4 * mantissa
    high := 4 * mantissa + 2
    closed := mantissa % 2 = 0
    num, den }

/-- Whether `digits` times ten to the `exponent` lies in the interval. -/
def Interval.has (i : Interval) (d : Decimal) : Bool :=
  let (up, down) := powFraction 10 d.exponent
  let x := d.digits * up * i.den
  let low := i.low * i.num * down
  let high := i.high * i.num * down
  if i.closed then low ≤ x && x ≤ high else low < x && x < high

/-- How far a decimal number is from the middle of the interval, in a unit that depends on its
exponent only. -/
def Interval.distance (i : Interval) (d : Decimal) : Nat :=
  let (up, down) := powFraction 10 d.exponent
  ((d.digits * up * i.den : Int) - i.value * i.num * down).natAbs

/-- The nearest decimal number with that exponent in the interval, if there is one. Of two equally
near the even one is taken. -/
def Interval.nearest? (i : Interval) (exponent : Int) : Option Decimal :=
  let (up, down) := powFraction 10 exponent
  let below : Decimal := ⟨i.value * i.num * down / (i.den * up), exponent⟩
  let above : Decimal := ⟨below.digits + 1, exponent⟩
  match i.has below, i.has above with
  | false, false => none
  | true, false => some below
  | false, true => some above
  | true, true =>
    let a := i.distance below
    let b := i.distance above
    some (if a < b || (a = b && below.digits % 2 = 0) then below else above)

/-- The decimal number with the fewest digits in the interval; no double needs more than 17. -/
def Interval.shortest (i : Interval) : Decimal :=
  let top := magnitude (i.value * i.num) i.den
  ((List.range 17).findSome? fun (n : Nat) => i.nearest? (top - n)).getD ⟨0, 0⟩

/-! ## Layout -/

/-- How the digits of a double are laid out: the powers of ten between which they are written
without an exponent, and the least number of digits of an exponent. -/
structure Layout where
  least : Int
  greatest : Int
  exponentDigits : Nat

/-- Doubles from 0.0001 up to but not at 10 to the 16 are written without an exponent. -/
def layout : Layout := ⟨-4, 15, 2⟩

/-- A text filled up with zeros in front. -/
def zeroPadded (width : Nat) (s : String) : String :=
  String.ofList (List.replicate (width - s.length) '0') ++ s

/-- Some zeros. -/
def zeros (n : Nat) : String := String.ofList (List.replicate n '0')

/-- The digits of a number without the zeros at the end. -/
def significant (n : Nat) : List Char :=
  ((toString n).toList.reverse.dropWhile (· == '0')).reverse

/-- The text of a positive decimal number. -/
def text (l : Layout) (d : Decimal) : String :=
  let ds := significant d.digits
  let point : Int := (toString d.digits).length + d.exponent
  let power := point - 1
  let digits := String.ofList ds
  if l.least ≤ power && power ≤ l.greatest then
    if point ≤ 0 then "0." ++ zeros (-point).toNat ++ digits
    else if point < ds.length then
      String.ofList (ds.take point.toNat) ++ "." ++ String.ofList (ds.drop point.toNat)
    else digits ++ zeros (point.toNat - ds.length) ++ ".0"
  else
    let lead := String.ofList (ds.take 1)
    let tail := ds.drop 1
    lead ++ (if tail.isEmpty then "" else "." ++ String.ofList tail)
      ++ "e" ++ (if power < 0 then "-" else "+")
      ++ zeroPadded l.exponentDigits (toString power.natAbs)

end Decimal

/-- A minus sign for negative numbers. -/
def minus (negative : Bool) : String := if negative then "-" else ""

/-- The fewest digits that read back as the double. -/
def shortest (x : Float) : String :=
  match Double.ofFloat x with
  | .nan => "nan"
  | .infinite negative => minus negative ++ "inf"
  | .finite negative m e =>
    minus negative ++
      (if m = 0 then "0.0"
      else Decimal.text Decimal.layout (Decimal.Interval.ofDouble m e).shortest)

/-- A double with a fixed number of places. -/
def fixed (places : Nat) (x : Float) : String :=
  match Double.ofFloat x with
  | .nan => "nan"
  | .infinite negative => minus negative ++ "inf"
  | .finite negative m e =>
    let (num, den) := powFraction 2 e
    let units := roundHalfEven (m * num * Nat.pow 10 places) den
    let ds := (Decimal.zeroPadded (places + 1) (toString units)).toList
    let whole := ds.take (ds.length - places)
    minus negative ++ String.ofList whole
      ++ (if places = 0 then "" else "." ++ String.ofList (ds.drop whole.length))

/-! ## The nearest double -/

/-- The double nearest to a decimal number. Numbers beyond the range of doubles are answered
without working out their powers of ten. -/
def ofDecimal (negative : Bool) (d : Decimal) : Float :=
  let size : Int := (toString d.digits).length + d.exponent
  let x : Float :=
    if d.digits = 0 || size < -400 then 0.0
    else if 400 < size then 1.0 / 0.0
    else Float.ofScientific d.digits (d.exponent < 0) d.exponent.natAbs
  if negative then -x else x

/-- The double nearest to a whole number, if it is within the range of doubles. -/
def ofWhole? (n : Int) : Option Float :=
  let x := ofDecimal (n < 0) ⟨n.natAbs, 0⟩
  if x.isInf then none else some x

end Mend
