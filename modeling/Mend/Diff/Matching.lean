import Mend.Text.Basic
import Std.Data.HashMap

/-!
# Matching two lists of rows

Two lists of rows are matched by the longest block of rows that they share, and then what is left
and right of that block is matched in the same way. Of several longest blocks, the one that starts
first in the first list is taken, and of those the one that starts first in the second list.

Where the second list is long, rows that occur very often in it do not start a block. They only
extend one.
-/

namespace Mend.Diff

/-- A block of rows that two lists share: where it starts in either list, and its size. -/
structure Block where
  left : Nat
  right : Nat
  size : Nat
  deriving DecidableEq, Repr

/-- Two lists of rows, and for every row where it stands in the second list. -/
structure Pair where
  left : Array Text
  right : Array Text
  places : Std.HashMap String (List Nat)

namespace Pair

/-- The size from which on rows can be too frequent. -/
def longSize : Nat := 200

/-- How often a row may occur among `n` rows. -/
def frequencyLimit (n : Nat) : Nat := n / 100 + 1

/-- For every row the places where it stands, in increasing order. -/
def placesOf (rows : Array Text) : Std.HashMap String (List Nat) :=
  rows.toList.zipIdx.foldr (fun row places =>
    let key := String.ofList row.1
    places.insert key (row.2 :: places.getD key [])) {}

/-- The places without those of rows that are too frequent. -/
def usablePlaces (rows : Array Text) : Std.HashMap String (List Nat) :=
  let places := placesOf rows
  if longSize ≤ rows.size then
    places.filter fun _ js => js.length ≤ frequencyLimit rows.size
  else places

/-- Two lists of rows. -/
def ofLists (a b : List Text) : Pair :=
  let right := b.toArray
  { left := a.toArray, right, places := usablePlaces right }

/-- The places in the second list between two bounds where a row of the first list stands. -/
def placesWithin (p : Pair) (i low high : Nat) : List Nat :=
  match p.left[i]? with
  | none => []
  | some row => (p.places.getD (String.ofList row) []).filter fun j => low ≤ j && j < high

/-- Whether the lists have the same row at two places. -/
def same (p : Pair) (i j : Nat) : Bool :=
  match p.left[i]?, p.right[j]? with
  | some a, some b => a == b
  | _, _ => false

end Pair

/-- The runs that end at the given places, each with its length: one longer than the run that ends
just before it, if there is one among the runs of the row before. -/
def runs : List (Nat × Nat) → List Nat → List (Nat × Nat)
  | _, [] => []
  | [], j :: js => (j, 1) :: runs [] js
  | (k, n) :: earlier, j :: js =>
    if k + 1 < j then runs earlier (j :: js)
    else if k + 1 = j then (j, n + 1) :: runs earlier js
    else (j, 1) :: runs ((k, n) :: earlier) js
termination_by earlier js => earlier.length + js.length

/-- The search for a longest block: the runs that end in the last row looked at, and the best block
so far. -/
structure Search where
  runs : List (Nat × Nat) := []
  best : Block

/-- The better of a block and a run that ends at row `i`. -/
def Block.orRun (best : Block) (i : Nat) (run : Nat × Nat) : Block :=
  if best.size < run.2 then ⟨i + 1 - run.2, run.1 + 1 - run.2, run.2⟩ else best

/-- A part of either list, from the first bound up to but not at the second. -/
structure Window where
  leftLow : Nat
  leftHigh : Nat
  rightLow : Nat
  rightHigh : Nat

/-- Looks at one more row of the first list. -/
def Search.step (p : Pair) (w : Window) (s : Search) (i : Nat) : Search :=
  let now := Diff.runs s.runs (p.placesWithin i w.rightLow w.rightHigh)
  { runs := now, best := now.foldl (fun b run => b.orRun i run) s.best }

/-- Extends a block to the front as long as the rows are the same; `fuel` bounds how far. -/
def Block.extendBack (p : Pair) (w : Window) (b : Block) : Nat → Block
  | 0 => b
  | fuel + 1 =>
    if w.leftLow < b.left && w.rightLow < b.right && p.same (b.left - 1) (b.right - 1) then
      Block.extendBack p w ⟨b.left - 1, b.right - 1, b.size + 1⟩ fuel
    else b

/-- Extends a block to the end as long as the rows are the same; `fuel` bounds how far. -/
def Block.extendOn (p : Pair) (w : Window) (b : Block) : Nat → Block
  | 0 => b
  | fuel + 1 =>
    if b.left + b.size < w.leftHigh && b.right + b.size < w.rightHigh
        && p.same (b.left + b.size) (b.right + b.size) then
      Block.extendOn p w { b with size := b.size + 1 } fuel
    else b

/-- The longest block that both lists share within a window; it is empty if they share none. -/
def longest (p : Pair) (w : Window) : Block :=
  let found := (List.range' w.leftLow (w.leftHigh - w.leftLow)).foldl (Search.step p w)
    { best := ⟨w.leftLow, w.rightLow, 0⟩ }
  let width := w.leftHigh - w.leftLow
  (found.best.extendBack p w width).extendOn p w width

/-- The blocks that both lists share within a window, from front to end. Every part that is left to
match is narrower than the window, so that its width is fuel enough. -/
def blocksWithin (p : Pair) : Nat → Window → List Block
  | 0, _ => []
  | fuel + 1, w =>
    let b := longest p w
    if b.size = 0 then []
    else
      let front : Window := { w with leftHigh := b.left, rightHigh := b.right }
      let rest : Window := { w with leftLow := b.left + b.size, rightLow := b.right + b.size }
      let before :=
        if w.leftLow < b.left && w.rightLow < b.right then blocksWithin p fuel front else []
      let behind :=
        if b.left + b.size < w.leftHigh && b.right + b.size < w.rightHigh
        then blocksWithin p fuel rest else []
      before ++ b :: behind

/-- Joins a block with the one in front of it if they touch in both lists. -/
def joinBlocks (b : Block) : List Block → List Block
  | [] => [b]
  | c :: rest =>
    if b.left + b.size = c.left && b.right + b.size = c.right
    then ⟨b.left, b.right, b.size + c.size⟩ :: rest else b :: c :: rest

/-- The blocks that two lists of rows share, none of them touching the next. -/
def blocks (p : Pair) : List Block :=
  let all : Window := ⟨0, p.left.size, 0, p.right.size⟩
  (blocksWithin p (p.left.size + 1) all).foldr joinBlocks []

end Mend.Diff
