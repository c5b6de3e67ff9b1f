import Mend.Issue

/-!
# Fixes

A fix is the outcome of one attempt to repair an issue: the text before and after, and a record of
every change that was made. Lines are counted from 1 in the text before the attempt.
-/

namespace Mend

/-- What a change does. -/
inductive ChangeKind
  | add
  | remove
  | modify
  | move
  deriving DecidableEq, Repr

namespace ChangeKind

/-- All kinds of changes. -/
def all : List ChangeKind := [add, remove, modify, move]

/-- The word for a kind of change. -/
def name : ChangeKind → String
  | add => "add"
  | remove => "remove"
  | modify => "modify"
  | move => "move"

/-- The kind of change of that name. -/
def ofName? (s : String) : Option ChangeKind := all.find? (·.name == s)

end ChangeKind

/-- The record of one change: what stood there, if anything did, and what stands there now, if
anything does. -/
structure Change where
  kind : ChangeKind
  line : Int
  description : String
  before : Option Text := none
  after : Option Text := none
  deriving DecidableEq, Repr

/-- The outcome of an attempt to repair an issue. -/
structure Fix where
  success : Bool
  /-- The text before the attempt. -/
  source : Text
  /-- The text after the attempt. -/
  fixed : Text
  changes : List Change := []
  confidence : Float := 0.0
  explanation : String := ""
  warnings : List String := []
  /-- The strategy that made the attempt. -/
  strategy : String := ""
  /-- The rule of the issue. -/
  rule : String := ""

namespace Fix

/-- An attempt that found nothing to repair and left the text as it was. -/
def nothing (t : Text) (explanation : String) : Fix where
  success := false
  source := t
  fixed := t
  explanation := explanation

end Fix

/-- Why an attempt was given up. -/
inductive FixError
  /-- A number with more digits than are read; the count is that of the digits. -/
  | tooManyDigits (digits : Nat)
  /-- A number that would be written with more digits than are written. -/
  | numberTooLong
  /-- Any other reason, in its own words. -/
  | because (reason : String)
  deriving DecidableEq, Repr

namespace FixError

/-- The most digits that numbers are read or written with. -/
def digitLimit : Nat := 4300

/-- The words for why an attempt was given up. -/
def message : FixError → String
  | tooManyDigits n =>
    s!"Exceeds the limit ({digitLimit} digits) for integer string conversion: value has {n} digits"
      ++ "; use sys.set_int_max_str_digits() to increase the limit"
  | numberTooLong =>
    s!"Exceeds the limit ({digitLimit} digits) for integer string conversion"
      ++ "; use sys.set_int_max_str_digits() to increase the limit"
  | because reason => reason

end FixError

end Mend
