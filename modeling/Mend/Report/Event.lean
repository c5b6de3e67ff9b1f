import Mend.Number.Decimal
import Mend.Text.Markup
import Mend.Text.Raw

/-!
# What is shown

Everything that a command shows is one of four things: a line of markup, a framed panel, a plain
text, or a question with its answer. Only lines can mention what is not a proper text. Left out: what
a terminal makes of markup, its colours and its width.
-/

namespace Mend

/-- Something that is shown. -/
inductive Event
  | line (markup : RawText)
  | panel (markup title color : String)
  | plain (text : String)
  | question (prompt : String) (answer : Bool)
  deriving DecidableEq, Repr

namespace Report

/-- Shows a string as it is. -/
def esc (s : String) : String := Text.escapeString s

/-- Shows a text as it is. -/
def escText (t : Text) : String := String.ofList (Text.escapeMarkup t)

/-- Markup in a style. -/
def styled (style markup : String) : String :=
  "[" ++ style ++ "]" ++ markup ++ "[/" ++ style ++ "]"

/-- Markup made from a raw text in a style. -/
def styledRaw (style : String) (markup : RawText) : RawText :=
  "[" ++ style ++ "]" ++ markup ++ "[/" ++ style ++ "]"

/-- Fills a string up with blanks behind. -/
def padRight (width : Nat) (s : String) : String :=
  s ++ String.ofList (List.replicate (width - s.length) ' ')

/-- The color of a score between 0 and 100. -/
def scoreColor (score : Float) : String :=
  if 80.0 ≤ score then "green" else if 60.0 ≤ score then "yellow" else "red"

/-- Why a bar cannot be drawn. -/
inductive BarError
  | notANumber
  | infinite
  /-- A width beyond all doubles. -/
  | tooWide
  /-- A number of blocks that no text can have. -/
  | tooLong
  /-- A number of blocks that no memory can hold. -/
  | outOfMemory
  deriving DecidableEq, Repr

/-- The most characters that a text can have. -/
def longestText : Int := Nat.pow 2 63

/-- The most blocks that are drawn. -/
def longestBar : Int := Nat.pow 2 32

/-- A block as often as a number says; none if the number is negative. -/
def blocks (c : Char) (n : Int) : Except BarError String :=
  if longestText ≤ n || n < -longestText then .error .tooLong
  else if longestBar < n then .error .outOfMemory
  else .ok (String.ofList (List.replicate n.toNat c))

/-- The number of blocks that are filled. -/
def filledBlocks (confidence : Float) (width : Int) : Except BarError Int :=
  match ofWhole? width with
  | none => .error .tooWide
  | some w =>
    match nearestWhole (confidence * w) with
    | .ok n => .ok n
    | .error .notANumber => .error .notANumber
    | .error .infinite => .error .infinite

/-- A confidence as a bar of filled and empty blocks. -/
def bar (confidence : Float) (width : Int) : Except BarError String :=
  match filledBlocks confidence width with
  | .error e => .error e
  | .ok filled =>
    match blocks '█' filled with
    | .error e => .error e
    | .ok full =>
      match blocks '░' (width - filled) with
      | .error e => .error e
      | .ok empty => .ok (styled (scoreColor (confidence * 100.0)) (full ++ empty))

/-- The width of bars. -/
def barWidth : Int := 12

end Report

end Mend
