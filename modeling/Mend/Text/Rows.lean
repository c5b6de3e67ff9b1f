import Mend.Text.Basic

/-!
# Rows

Where a text is shown row by row, every line boundary of the Unicode standard ends a row, a carriage
return and the newline behind it ending one row together. A boundary at the end begins no further
row.
-/

namespace Mend.Text

/-- The characters that end a row. -/
def endsRow (c : Char) : Bool :=
  let n := c.toNat
  (0x0a ≤ n && n ≤ 0x0d) || (0x1c ≤ n && n ≤ 0x1e) || n == 0x85 || n == 0x2028 || n == 0x2029

/-- The rows read so far, last first, the row being read, last character first, and whether the
last character was a carriage return. -/
structure RowReader where
  done : List Text := []
  row : Text := []
  afterReturn : Bool := false

/-- Reads one character. -/
def RowReader.feed (s : RowReader) (c : Char) : RowReader :=
  if c = '\n' && s.afterReturn then { s with afterReturn := false }
  else if endsRow c then { done := s.row.reverse :: s.done, row := [], afterReturn := c = '\r' }
  else { s with row := c :: s.row, afterReturn := false }

/-- The rows of a text. -/
def rows (t : Text) : List Text :=
  let s := t.foldl RowReader.feed {}
  (if s.row.isEmpty then s.done else s.row.reverse :: s.done).reverse

end Mend.Text
