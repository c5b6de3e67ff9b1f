/-!
# Raw texts

What comes from outside need not be a proper text: in JSON, and in the names of files, one half of a
surrogate pair may stand without the other. A raw text keeps such halves as they are. Paths, and
messages that mention them, are raw texts too.
-/

namespace Mend

/-- The number of halves of surrogate pairs. -/
abbrev halfCount : Nat := 0x800

/-- A code point: a character, or a half of a surrogate pair. -/
inductive Point
  | char (c : Char)
  /-- A half, counted from the first of them. -/
  | half (n : Fin halfCount)
  deriving DecidableEq, Repr

namespace Point

/-- The first of the code points that are halves of surrogate pairs. -/
def firstHalf : Nat := 0xd800

/-- The first of the second halves. -/
def firstLow : Nat := 0xdc00

/-- The first code point behind the halves. -/
def pastHalves : Nat := 0xe000

/-- The number of a code point. -/
def code : Point → Nat
  | char c => c.toNat
  | half n => firstHalf + n

/-- Whether a number is that of a first half. -/
def isHigh (n : Nat) : Bool := firstHalf ≤ n && n < firstLow

/-- Whether a number is that of a second half. -/
def isLow (n : Nat) : Bool := firstLow ≤ n && n < pastHalves

/-- The code point of a number. -/
def ofCode (n : Nat) : Point :=
  if isHigh n || isLow n then half (Fin.ofNat halfCount (n - firstHalf)) else char (Char.ofNat n)

/-- The character of a surrogate pair. -/
def ofPair (high low : Nat) : Point :=
  char (Char.ofNat (0x10000 + (high - firstHalf) * 0x400 + (low - firstLow)))

/-- The half that stands for a byte that belongs to no character. -/
def ofByte (b : UInt8) : Point := half (Fin.ofNat halfCount (firstLow - firstHalf + b.toNat))

/-- The byte that a half stands for, if it stands for one. -/
def byte? : Point → Option UInt8
  | char _ => none
  | half n =>
    let b := firstHalf + n - firstLow
    if 0x80 ≤ b && b < 0x100 then some (UInt8.ofNat b) else none

/-- The character that a code point is, if it is one. -/
def char? : Point → Option Char
  | char c => some c
  | half _ => none

/-- The character that is shown for a code point: a half is shown by the replacement character. -/
def shown : Point → Char
  | char c => c
  | half _ => '\ufffd'

end Point

/-- A raw text, code point by code point. -/
abbrev RawText := List Point

namespace RawText

/-- A string as a raw text. -/
def ofString (s : String) : RawText := s.toList.map .char

instance : Coe String RawText := ⟨ofString⟩

/-- A raw text as a string, with the replacement character for every half. -/
def string (t : RawText) : String := String.ofList (t.map Point.shown)

/-- Whether a raw text comes before another one, or is the same. -/
def atMost : RawText → RawText → Bool
  | [], _ => true
  | _ :: _, [] => false
  | a :: s, b :: t => decide (a.code < b.code) || (a.code == b.code && atMost s t)

end RawText

end Mend
