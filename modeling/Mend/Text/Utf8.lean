import Mend.Text.Basic
import Mend.Text.Raw

/-!
# Texts as bytes

Texts are stored in UTF-8. The decoder reads byte after byte. Where the bytes read so far cannot go
on, it gives them up, as many as could have begun a character, and starts again at the byte that did
not fit. A byte that is given up is kept as the half of a surrogate pair that stands for it.

A file is read leniently, without the bytes that belong to no character, and every line ending is
read as a newline. It is written as it stands. Left out: systems with another encoding or another
line ending of their own.
-/

namespace Mend

/-- The content of a file. -/
abbrev Bytes := List UInt8

namespace Utf8

/-- A character that is not complete: its bits and its bytes so far, the latter last first, how many
bytes are missing, and the bounds of the next one. -/
structure Pending where
  bits : Nat
  seen : Bytes
  missing : Nat
  least : UInt8 := 0x80
  greatest : UInt8 := 0xbf

/-- What the first byte of a character stands for. -/
inductive Lead
  | char (c : Char)
  | pending (p : Pending)
  | invalid

/-- Reads the first byte of a character. The bounds of the second byte keep out overlong forms,
surrogates and numbers beyond the last code point. -/
def lead (b : UInt8) : Lead :=
  let n := b.toNat
  if n < 0x80 then .char (Char.ofNat n)
  else if n < 0xc2 then .invalid
  else if n < 0xe0 then .pending { bits := n - 0xc0, seen := [b], missing := 1 }
  else if n = 0xe0 then .pending { bits := 0, seen := [b], missing := 2, least := 0xa0 }
  else if n = 0xed then .pending { bits := 0xd, seen := [b], missing := 2, greatest := 0x9f }
  else if n < 0xf0 then .pending { bits := n - 0xe0, seen := [b], missing := 2 }
  else if n = 0xf0 then .pending { bits := 0, seen := [b], missing := 3, least := 0x90 }
  else if n < 0xf4 then .pending { bits := n - 0xf0, seen := [b], missing := 3 }
  else if n = 0xf4 then .pending { bits := 4, seen := [b], missing := 3, greatest := 0x8f }
  else .invalid

/-- The code points read so far, last first, and the character that is not complete. -/
structure Decoder where
  points : RawText := []
  pending : Option Pending := none

namespace Decoder

/-- The code points without a character that is not complete: its bytes are given up. -/
def settled (d : Decoder) : RawText :=
  match d.pending with
  | none => d.points
  | some p => p.seen.map .ofByte ++ d.points

/-- Reads the first byte of a character behind some code points. -/
def start (points : RawText) (b : UInt8) : Decoder :=
  match lead b with
  | .char c => { points := .char c :: points }
  | .pending p => { points, pending := some p }
  | .invalid => { points := .ofByte b :: points }

/-- Reads one byte. -/
def feed (d : Decoder) (b : UInt8) : Decoder :=
  match d.pending with
  | none => start d.points b
  | some p =>
    if p.least ≤ b && b ≤ p.greatest then
      let bits := 64 * p.bits + (b.toNat - 0x80)
      if p.missing ≤ 1 then { points := .char (Char.ofNat bits) :: d.points }
      else { d with pending := some { bits, seen := b :: p.seen, missing := p.missing - 1 } }
    else start d.settled b

/-- Reads bytes one after the other. -/
def run (bytes : Bytes) : Decoder := bytes.foldl feed {}

end Decoder

/-- The raw text that bytes hold. -/
def decode (bytes : Bytes) : RawText := (Decoder.run bytes).settled.reverse

/-- The text that bytes hold, without the bytes that belong to no character. -/
def decodeLenient (bytes : Bytes) : Text := (decode bytes).filterMap Point.char?

/-- The text that bytes hold, if all of them belong to characters. -/
def decode? (bytes : Bytes) : Option Text := (decode bytes).mapM Point.char?

/-- The bytes of a text. -/
def encode (t : Text) : Bytes := t.flatMap String.utf8EncodeChar

/-- The bytes of a code point. A half that stands for no byte has none. -/
def encodePoint : Point → Bytes
  | .char c => String.utf8EncodeChar c
  | p => p.byte?.toList

/-- The bytes of a raw text. -/
def encodeRaw (t : RawText) : Bytes := t.flatMap encodePoint

end Utf8

namespace Text

/-- Reads one character of a text with any line endings: the characters so far, last first, and
whether the last one was a carriage return. -/
def foldLineEnd (s : List Char × Bool) (c : Char) : List Char × Bool :=
  if c = '\r' then ('\n' :: s.1, true)
  else if c = '\n' && s.2 then (s.1, false)
  else (c :: s.1, false)

/-- A text with every line ending written as a newline. -/
def withNewlines (t : Text) : Text := (t.foldl foldLineEnd ([], false)).1.reverse

end Text

/-- The text of a file. -/
def readText (bytes : Bytes) : Text := Text.withNewlines (Utf8.decodeLenient bytes)

/-- The text of a file in which all bytes belong to characters. -/
def readText? (bytes : Bytes) : Option Text := (Utf8.decode? bytes).map Text.withNewlines

end Mend
