import Mend.Text.Hex
import Mend.Text.Printable
import Mend.Text.Raw

/-!
# Quoted texts

A quoted text stands between single quotes, or between double quotes if it holds single quotes and
no double ones. Backslashes, the quote around the text and everything that would not show, halves of
surrogate pairs among it, are written with a backslash.
-/

namespace Mend.Text

/-- A single quote. -/
def singleQuote : Char := '\x27'

/-- A double quote. -/
def doubleQuote : Char := '\x22'

/-- The quote to put around a text. -/
def quoteFor (t : RawText) : Char :=
  if t.contains (.char singleQuote) && !t.contains (.char doubleQuote) then doubleQuote
  else singleQuote

/-- How a character is written between the given quotes. -/
def quotedChar (quote c : Char) : List Char :=
  if c == quote || c == '\\' then ['\\', c]
  else if c == '\n' then ['\\', 'n']
  else if c == '\r' then ['\\', 'r']
  else if c == '\t' then ['\\', 't']
  else if isPrintable c then [c]
  else if c.toNat < 0x100 then '\\' :: 'x' :: hex 2 c.toNat
  else if c.toNat < 0x10000 then '\\' :: 'u' :: hex 4 c.toNat
  else '\\' :: 'U' :: hex 8 c.toNat

/-- How a code point is written between the given quotes. -/
def quotedPoint (quote : Char) : Point → List Char
  | .char c => quotedChar quote c
  | .half n => '\\' :: 'u' :: hex 4 (Point.half n).code

/-- A raw text between quotes. -/
def quoted (t : RawText) : String :=
  let quote := quoteFor t
  String.ofList (quote :: t.flatMap (quotedPoint quote) ++ [quote])

end Mend.Text
