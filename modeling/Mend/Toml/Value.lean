/-!
# Values of a TOML document
-/

namespace Mend.Toml

/-- A value in a TOML document. -/
inductive Value
  | text (s : String)
  | int (n : Int)
  | float (x : Float)
  | bool (b : Bool)
  /-- A date, a time or both, as it is written. -/
  | moment (written : String)
  | list (xs : List Value)
  | table (entries : List (String × Value))
  deriving Inhabited

/-- Why a document is refused. -/
inductive Error
  | malformed
  /-- A whole number with more digits than are read. -/
  | tooManyDigits
  /-- Lists and tables inside one another beyond the depth that is read. -/
  | tooDeep
  deriving DecidableEq, Repr

/-- What is read at the front of a text, and the rest of the text. -/
abbrev Read (α : Type) := Except Error (α × List Char)

end Mend.Toml
