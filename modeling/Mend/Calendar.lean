/-!
# Instants and dates

An instant is a span of time from the beginning of 1970, to the microsecond. Dates follow the
Gregorian calendar, also before it was introduced, and days have no leap seconds.

Left out: time zones, so that the time of day is that of Greenwich, and texts of dates in other forms
than the one in which they are written.
-/

namespace Mend

/-- A span of time, counted in microseconds. A number that is given as a span is one of
milliseconds. -/
structure Span where
  microseconds : Int
  deriving DecidableEq, Repr

namespace Span

/-- A span of some milliseconds. -/
def ofMilliseconds (n : Int) : Span := ⟨n * 1000⟩

instance : Coe Int Span := ⟨ofMilliseconds⟩

instance (n : Nat) : OfNat Span n := ⟨ofMilliseconds n⟩

/-- The double that is nearest to the seconds of a span. -/
def seconds (s : Span) : Float :=
  let size := Float.ofScientific s.microseconds.natAbs true 6
  if s.microseconds < 0 then -size else size

end Span

/-- A moment, by the span from the beginning of 1970 on. -/
structure Instant where
  age : Span
  deriving DecidableEq, Repr

namespace Instant

/-- The moment that is later by a span. -/
def later (i : Instant) (s : Span) : Instant := ⟨⟨i.age.microseconds + s.microseconds⟩⟩

/-- The seconds from one moment to another. -/
def secondsUntil (start stop : Instant) : Float :=
  (⟨stop.age.microseconds - start.age.microseconds⟩ : Span).seconds

end Instant

/-- A date and a time of day. -/
structure Date where
  year : Int
  month : Int
  day : Int
  hour : Int
  minute : Int
  second : Int
  microsecond : Int
  deriving DecidableEq, Repr

namespace Date

/-- The days of a cycle before one of its years. -/
def daysBefore (yearOfCycle : Int) : Int :=
  365 * yearOfCycle + yearOfCycle / 4 - yearOfCycle / 100

/-- The year of a cycle that one of its days is in. -/
def yearOfCycle (day : Int) : Int := (day - day / 1460 + day / 36524 - day / 146096) / 365

/-- Year, month and day of a day counted from the beginning of 1970. Years are counted from March,
so that the leap day is the last of them, in cycles of 400 years. -/
def ofDays (days : Int) : Int × Int × Int :=
  let shifted := days + 719468
  let cycle := shifted / 146097
  let year := yearOfCycle (shifted % 146097)
  let dayOfYear := shifted % 146097 - daysBefore year
  let monthFromMarch := (5 * dayOfYear + 2) / 153
  let day := dayOfYear - (153 * monthFromMarch + 2) / 5 + 1
  let month := if monthFromMarch < 10 then monthFromMarch + 3 else monthFromMarch - 9
  (year + cycle * 400 + (if month ≤ 2 then 1 else 0), month, day)

/-- The date of a moment. -/
def ofInstant (i : Instant) : Date :=
  let seconds := i.age.microseconds / 1000000
  let (year, month, day) := ofDays (seconds / 86400)
  let inDay := seconds % 86400
  { year, month, day
    hour := inDay / 3600
    minute := inDay / 60 % 60
    second := inDay % 60
    microsecond := i.age.microseconds % 1000000 }

/-- A number filled up with zeros in front. -/
def padded (width : Nat) (n : Int) : String :=
  let ds := (toString n.toNat).toList
  String.ofList (List.replicate (width - ds.length) '0' ++ ds)

/-- The date alone. -/
def dayText (d : Date) : String :=
  padded 4 d.year ++ "-" ++ padded 2 d.month ++ "-" ++ padded 2 d.day

/-- Date and time. The fraction of a second is written with six digits, and only where there is
one. -/
def text (d : Date) : String :=
  d.dayText ++ "T" ++ padded 2 d.hour ++ ":" ++ padded 2 d.minute ++ ":" ++ padded 2 d.second
    ++ (if d.microsecond = 0 then "" else "." ++ padded 6 d.microsecond)

/-- Date and time down to the second, as the name of a folder. The year has no zeros in front. -/
def stamp (d : Date) : String :=
  padded 1 d.year ++ "-" ++ padded 2 d.month ++ "-" ++ padded 2 d.day
    ++ "T" ++ padded 2 d.hour ++ "-" ++ padded 2 d.minute ++ "-" ++ padded 2 d.second

/-! ## Reading -/

/-- The day, counted from the beginning of 1970, of a year, a month and a day. -/
def daysOf (year month day : Int) : Int :=
  let yearFromMarch := if month ≤ 2 then year - 1 else year
  let monthFromMarch := if month ≤ 2 then month + 9 else month - 3
  let dayOfYear := (153 * monthFromMarch + 2) / 5 + day - 1
  yearFromMarch / 400 * 146097 + daysBefore (yearFromMarch % 400) + dayOfYear - 719468

/-- The moment of a date. -/
def toInstant (d : Date) : Instant :=
  let minutes := (daysOf d.year d.month d.day * 24 + d.hour) * 60 + d.minute
  ⟨⟨(minutes * 60 + d.second) * 1000000 + d.microsecond⟩⟩

/-- The number that the first digits of a text write, and the rest. -/
def number? (width : Nat) (t : List Char) : Option (Int × List Char) :=
  let ds := t.take width
  if ds.length = width && ds.all Char.isDigit then some (Nat.ofDigitChars 10 ds 0, t.drop width)
  else none

/-- A text without the character that it begins with. -/
def past? (c : Char) : List Char → Option (List Char)
  | [] => none
  | x :: t => if x = c then some t else none

/-- The microseconds in the fraction of a second that ends a text; there are none without one. -/
def fraction? (t : List Char) : Option Int := do
  if t.isEmpty then return 0
  let (microsecond, t) ← number? 6 (← past? '.' t)
  if t.isEmpty then return microsecond
  failure

/-- Reads date and time. -/
def ofText? (s : String) : Option Date := do
  let (year, t) ← number? 4 s.toList
  let (month, t) ← number? 2 (← past? '-' t)
  let (day, t) ← number? 2 (← past? '-' t)
  let (hour, t) ← number? 2 (← past? 'T' t)
  let (minute, t) ← number? 2 (← past? ':' t)
  let (second, t) ← number? 2 (← past? ':' t)
  let microsecond ← fraction? t
  return { year, month, day, hour, minute, second, microsecond }

end Date

/-- The date and time of a moment. -/
def Instant.text (i : Instant) : String := (Date.ofInstant i).text

/-- The moment that a date and time are those of. There is none for a date that does not exist. -/
def Instant.ofText? (s : String) : Option Instant :=
  match Date.ofText? s with
  | none => none
  | some d => if Date.ofInstant d.toInstant = d then some d.toInstant else none

/-- The name of a folder for a moment. -/
def Instant.stamp (i : Instant) : String := (Date.ofInstant i).stamp

end Mend
