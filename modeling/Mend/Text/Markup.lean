import Mend.Text.Pattern

/-!
# Console markup

On the console, a word in brackets is a style. A text that is to be shown as it is has a backslash
in front of everything that would read as a style.
-/

namespace Mend.Text

/-- The characters that the name of a style can start with. -/
def startsTag (c : Char) : Bool := c.isLower || c == '#' || c == '/' || c == '@'

/-- Reads a tag up to and with the first closing bracket, with no opening bracket before it. -/
def tagRest : Reader := fun t =>
  let n := (t.takeWhile fun c => c != ']' && c != '[').length
  if (t.drop n).head? == some ']' then some (n + 1) else none

/-- A tag with all backslashes in front of it. -/
def tag : Pattern := .anywhere (.seq [.many (· == '\\'), .one (· == '['), .one startsTag, tagRest])

/-- A tag that is shown as it is: twice as many backslashes as before, and one more. -/
def escapedTag (covered : Text) : Text :=
  let slashes := covered.takeWhile (· == '\\')
  slashes ++ slashes ++ ['\\'] ++ covered.drop slashes.length

/-- A text that is shown as it is. A single backslash at the end is doubled, since a style may
follow. -/
def escapeMarkup (t : Text) : Text :=
  let escaped := replaceHits tag (fun h => escapedTag h.covered) t
  match escaped.reverse with
  | '\\' :: '\\' :: _ => escaped
  | '\\' :: _ => escaped ++ ['\\']
  | _ => escaped

/-- A string that is shown as it is. -/
def escapeString (s : String) : String := String.ofList (escapeMarkup s.toList)

end Mend.Text
