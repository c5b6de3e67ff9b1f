import Mend.Issue

/-!
# The line an issue means

Earlier fixes may have moved the lines since an issue was seen, so the line of an issue is a hint:
it means the nearest line that qualifies and still shows the first line of the evidence.
-/

namespace Mend

open Text

/-- The part of the evidence that is looked for in a line. -/
def Issue.marker (i : Issue) : Text := trim (i.evidence.takeWhile (· != '\n'))

/-- The indices, counted from 0, of the lines that qualify and show the evidence. -/
def candidates (ls : List Text) (i : Issue) (qualifies : Nat → Bool) : List Nat :=
  (ls.zipIdx.filter fun p => contains i.marker p.1 && qualifies p.2).map (·.2)

/-- The index of the line that an issue means; of two lines equally near, the one further up. -/
def place? (ls : List Text) (i : Issue) (qualifies : Nat → Bool) : Option Nat :=
  match i.line with
  | none => none
  | some n => (candidates ls i qualifies).minOn? fun (k : Nat) => ((k : Int) - (n - 1)).natAbs

/-- A text with the line at an index replaced by a block of lines. -/
def replaceLine (ls : List Text) (index : Nat) (block : List Text) : List Text :=
  ls.take index ++ block ++ ls.drop (index + 1)

/-- A text with a block of lines put in front of the line at an index. -/
def insertAbove (ls : List Text) (index : Nat) (block : List Text) : List Text :=
  ls.take index ++ block ++ ls.drop index

end Mend
