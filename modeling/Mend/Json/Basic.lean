import Mend.Number.Decimal
import Mend.Text.Quoted

/-!
# JSON values

Whole numbers and doubles are told apart, as they are in writing, and the fields of a record keep
their order. Texts and names are raw, since JSON can write halves of surrogate pairs.
-/

namespace Mend

/-- A JSON value. -/
inductive Json
  | null
  | bool (b : Bool)
  | int (n : Int)
  | float (x : Float)
  | text (s : RawText)
  | list (xs : List Json)
  | record (fields : List (RawText × Json))
  deriving Inhabited

namespace Json

/-- The value of a field. -/
def field? (name : RawText) : Json → Option Json
  | record fields => fields.lookup name
  | _ => none

/-- Sets a field, in its place if it is there and behind the others if it is not. -/
def setField (name : RawText) (value : Json) : List (RawText × Json) → List (RawText × Json)
  | [] => [(name, value)]
  | (n, v) :: rest => if n = name then (n, value) :: rest else (n, v) :: setField name value rest

/-- The value of a text. -/
def ofText (t : List Char) : Json := .text (t.map .char)

mutual

/-- How a value is written inside a message. -/
def shown : Json → String
  | null => "None"
  | bool true => "True"
  | bool false => "False"
  | int n => toString n
  | float x => shortest x
  | text s => Text.quoted s
  | list xs => "[" ++ shownItems xs ++ "]"
  | record fields => "\x7b" ++ shownFields fields ++ "\x7d"

/-- How the items of a list are written inside a message. -/
def shownItems : List Json → String
  | [] => ""
  | [x] => shown x
  | x :: y :: rest => shown x ++ ", " ++ shownItems (y :: rest)

/-- How the fields of a record are written inside a message. -/
def shownFields : List (RawText × Json) → String
  | [] => ""
  | [(n, v)] => Text.quoted n ++ ": " ++ shown v
  | (n, v) :: f :: rest =>
    Text.quoted n ++ ": " ++ shown v ++ ", " ++ shownFields (f :: rest)

end

/-- A value as a message: a text as it is, and everything else as it is written inside a message. -/
def display : Json → RawText
  | text s => s
  | v => shown v

end Json

end Mend
