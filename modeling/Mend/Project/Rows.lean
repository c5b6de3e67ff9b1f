import Mend.Json.Printer
import Mend.Json.Reader
import Mend.Store
import Mend.Text.Utf8

/-!
# Rows as bytes

The rows of a database are stored as a JSON list, each of them as the list of its fields. This is a
form of its own, which only the command line uses; a tree has the rows themselves.
-/

namespace Mend.Rows

/-- A row as a list of its fields. -/
def ofRow (w : Row) : Json := .list [
  .text w.strategy, .text w.rule, .int w.attempts, .int w.successes, .float w.confidence,
  .text w.updated]

/-- The row with the listed fields. -/
def row? : Json → Option Row
  | .list [.text strategy, .text rule, .int attempts, .int successes, .float confidence,
      .text updated] =>
    some {
      strategy := strategy.string
      rule := rule.string
      confidence
      attempts := attempts.toNat
      successes := successes.toNat
      updated := updated.string }
  | _ => none

/-- The bytes of a database. -/
def toBytes (rows : List Row) : Bytes :=
  Utf8.encode (Json.list (rows.map ofRow)).compact.toList

/-- The rows in the bytes of a database. -/
def ofBytes? (bytes : Bytes) : Option (List Row) :=
  match (readText? bytes).map Json.ofChars with
  | some (.ok (.list rows)) => rows.mapM row?
  | _ => none

end Mend.Rows
