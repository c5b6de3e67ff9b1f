/-!
# Ranges of code points

A property of characters is given by the sorted list of the ranges of code points that have it, and
looked up by halving.
-/

namespace Mend.Text

/-- Disjoint ranges of code points in increasing order, each with its first and its last member. -/
structure Ranges where
  bounds : Array (Nat × Nat)

namespace Ranges

/-- Looks for the code point `n` in the ranges from index `lo` up to but not at `hi`; `fuel` bounds
the number of halvings. -/
def search (rs : Ranges) (n lo hi : Nat) : Nat → Bool
  | 0 => false
  | fuel + 1 =>
    if lo < hi then
      let mid := (lo + hi) / 2
      match rs.bounds[mid]? with
      | none => false
      | some (first, last) =>
        if n < first then rs.search n lo mid fuel
        else if last < n then rs.search n (mid + 1) hi fuel
        else true
    else false

/-- Whether a character lies in one of the ranges. -/
def contains (rs : Ranges) (c : Char) : Bool :=
  rs.search c.toNat 0 rs.bounds.size (rs.bounds.size.log2 + 2)

end Ranges

end Mend.Text
