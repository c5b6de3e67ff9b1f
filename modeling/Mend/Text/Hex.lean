/-!
# Hexadecimal digits
-/

namespace Mend.Text

/-- A number in lower-case hexadecimal digits, filled up with zeros in front. -/
def hex (width n : Nat) : List Char :=
  let ds := Nat.toDigits 16 n
  List.replicate (width - ds.length) '0' ++ ds

/-- The value of a hexadecimal digit of either case. -/
def hexValue? (c : Char) : Option Nat :=
  if c.isDigit then some (c.toNat - '0'.toNat)
  else if 'a' ≤ c && c ≤ 'f' then some (c.toNat - 'a'.toNat + 10)
  else if 'A' ≤ c && c ≤ 'F' then some (c.toNat - 'A'.toNat + 10)
  else none

/-- The number that hexadecimal digits write, if all of them are digits. -/
def ofHex? (ds : List Char) : Option Nat :=
  ds.foldlM (fun n c => (hexValue? c).map (16 * n + ·)) 0

end Mend.Text
