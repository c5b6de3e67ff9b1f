import Mend.Diff.Matching
import Mend.Text.Rows

/-!
# Unified diffs

A unified diff shows the places where two texts differ, with three rows of context around them and
a heading for every group of places that are close together. Nothing is shown for equal texts.
-/

namespace Mend.Diff

/-- A part of either list of rows: the same rows, or rows that take the place of others. -/
structure Span where
  same : Bool
  leftLow : Nat
  leftHigh : Nat
  rightLow : Nat
  rightHigh : Nat
  deriving DecidableEq, Repr

/-- The parts from two places on: what is between the blocks, and the blocks. -/
def spansFrom (i j : Nat) : List Block → List Span
  | [] => []
  | b :: rest =>
    (if i < b.left || j < b.right then [⟨false, i, b.left, j, b.right⟩] else [])
      ++ (if b.size = 0 then []
        else [⟨true, b.left, b.left + b.size, b.right, b.right + b.size⟩])
      ++ spansFrom (b.left + b.size) (b.right + b.size) rest

/-- All parts of two lists of rows. -/
def spans (p : Pair) : List Span :=
  spansFrom 0 0 (blocks p ++ [⟨p.left.size, p.right.size, 0⟩])

/-- The rows of context around a difference. -/
def context : Nat := 3

/-- The last rows of a part. -/
def Span.last (n : Nat) (s : Span) : Span :=
  { s with leftLow := max s.leftLow (s.leftHigh - n), rightLow := max s.rightLow (s.rightHigh - n) }

/-- The first rows of a part. -/
def Span.first (n : Nat) (s : Span) : Span :=
  { s with leftHigh := min s.leftHigh (s.leftLow + n), rightHigh := min s.rightHigh (s.rightLow + n) }

/-- Changes the first item of a list. -/
def mapHead {α : Type} (f : α → α) : List α → List α
  | [] => []
  | x :: rest => f x :: rest

/-- Changes the last item of a list. -/
def mapLast {α : Type} (f : α → α) (xs : List α) : List α := (mapHead f xs.reverse).reverse

/-- Applies a change only to parts with the same rows. -/
def Span.ifSame (f : Span → Span) (s : Span) : Span := if s.same then f s else s

/-- Cuts the parts into groups where more of the same rows follow each other than the context of two
differences takes, `group` being the parts of the current group, last first. -/
def groupsFrom (group : List Span) : List Span → List (List Span)
  | [] => [group.reverse]
  | s :: rest =>
    if s.same && 2 * context < s.leftHigh - s.leftLow then
      (s.first context :: group).reverse :: groupsFrom [s.last context] rest
    else groupsFrom (s :: group) rest

/-- The groups of parts that are shown together. -/
def groups (spans : List Span) : List (List Span) :=
  let trimmed := mapLast (Span.ifSame (Span.first context))
    (mapHead (Span.ifSame (Span.last context)) spans)
  (groupsFrom [] trimmed).filter fun g => g.any fun s => !s.same

/-- A range of rows in a heading: where it starts, counted from 1, and how many rows it has unless
it is one. An empty range starts at the row before it. -/
def rangeText (low high : Nat) : String :=
  let size := high - low
  if size = 1 then toString (low + 1)
  else if size = 0 then s!"{low},0"
  else s!"{low + 1},{size}"

/-- The heading of a group. -/
def heading (group : List Span) : Text :=
  match group.head?, group.getLast? with
  | some a, some z =>
    ("@@ -" ++ rangeText a.leftLow z.leftHigh ++ " +" ++ rangeText a.rightLow z.rightHigh
      ++ " @@").toList
  | _, _ => []

/-- The rows of a part, marked as the same, as gone or as new. -/
def Span.rows (p : Pair) (s : Span) : List Text :=
  let left := (p.left.extract s.leftLow s.leftHigh).toList
  if s.same then left.map (' ' :: ·)
  else
    left.map ('-' :: ·) ++ (p.right.extract s.rightLow s.rightHigh).toList.map ('+' :: ·)

/-- The unified diff of two texts with the given names. -/
def unified (fromName toName : Text) (a b : Text) : List Text :=
  let p := Pair.ofLists (Text.rows a) (Text.rows b)
  match groups (spans p) with
  | [] => []
  | gs =>
    ("--- ".toList ++ fromName) :: ("+++ ".toList ++ toName)
      :: gs.flatMap fun g => heading g :: g.flatMap (Span.rows p)

end Mend.Diff
