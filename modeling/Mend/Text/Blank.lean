/-!
# White space

The blank characters: the white space of the Unicode standard together with the four separators
U+001C to U+001F, and neither the zero-width space nor the byte order mark.
-/

namespace Mend.Text

/-- White space. -/
def isBlank (c : Char) : Bool :=
  let n := c.toNat
  n == 0x20 || (0x09 ≤ n && n ≤ 0x0d) || (0x1c ≤ n && n ≤ 0x1f) || n == 0x85 || n == 0xa0
    || n == 0x1680 || (0x2000 ≤ n && n ≤ 0x200a) || n == 0x2028 || n == 0x2029 || n == 0x202f
    || n == 0x205f || n == 0x3000

/-- The white space that stands around a number in a text: that of ASCII. -/
def isAsciiBlank (c : Char) : Bool :=
  c == ' ' || (0x09 ≤ c.toNat && c.toNat ≤ 0x0d)

end Mend.Text
