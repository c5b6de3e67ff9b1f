import Mend.Toml.Value

/-!
# The tables of a TOML document as it is read

A table comes into being by a header of its own, as a part of a longer header, or as a part of a
dotted name. It may be added to where it came into being, and a header may name it only once. What
stands inside brackets is complete.
-/

namespace Mend.Toml

/-- How a table came into being. -/
inductive Origin
  /-- As a part of a longer header. -/
  | implied
  /-- By a header of its own. -/
  | declared
  /-- By a dotted name below the header with that number. -/
  | dotted (header : Nat)
  deriving DecidableEq, Repr

/-- The origin of a table after a dotted name below a header leads through it. -/
def Origin.touch? (current : Nat) : Origin → Option Origin
  | .implied => some (.dotted current)
  | .declared => none
  | .dotted header => if header = current then some (.dotted header) else none

/-- What stands under a name. -/
inductive Node
  /-- A complete value. -/
  | value (v : Value)
  /-- A table. -/
  | table (origin : Origin) (entries : List (String × Node))
  /-- A list of tables that headers add to, last first. -/
  | tables (elements : List (List (String × Node)))
  deriving Inhabited

/-- What stands under the names of a table, in the order of the document. -/
abbrev Entries := List (String × Node)

/-! ## Reading off the values -/

mutual

/-- The value of a node. -/
def Node.toValue : Node → Value
  | .value v => v
  | .table _ entries => .table (entryValues entries)
  | .tables elements => .list (elementValues [] elements)

/-- The values of the entries of a table. -/
def entryValues : List (String × Node) → List (String × Value)
  | [] => []
  | (name, node) :: rest => (name, node.toValue) :: entryValues rest

/-- The values of the elements of a list, put in front of others from the last on. -/
def elementValues (later : List Value) : List (List (String × Node)) → List Value
  | [] => later
  | entries :: earlier => elementValues (.table (entryValues entries) :: later) earlier

end

namespace Entries

/-! ## Adding to tables -/

/-- Changes what stands under a name, or puts something there. -/
def alter? (name : String) (f : Option Node → Option Node) : Entries → Option Entries
  | [] => (f none).map fun node => [(name, node)]
  | (n, node) :: rest =>
    if n = name then (f (some node)).map fun node => (n, node) :: rest
    else (alter? name f rest).map ((n, node) :: ·)

/-- Changes the table that a header leads to. Tables on the way are made where there are none; of a
list of tables the last one is meant. -/
def along? (f : Entries → Option Entries) : List String → Entries → Option Entries
  | [] => f
  | name :: path => alter? name fun
    | none => (along? f path []).map (.table .implied)
    | some (.table origin entries) => (along? f path entries).map (.table origin)
    | some (.tables (last :: earlier)) => (along? f path last).map fun e => .tables (e :: earlier)
    | some _ => none

/-- Changes the table that the parts of a dotted name lead to. -/
def dotted? (current : Nat) (f : Entries → Option Entries) : List String → Entries → Option Entries
  | [] => f
  | name :: path => alter? name fun
    | none => (dotted? current f path []).map (.table (.dotted current))
    | some (.table origin entries) =>
      match origin.touch? current with
      | some origin => (dotted? current f path entries).map (.table origin)
      | none => none
    | some _ => none

/-- Puts a value under a name that is not taken. -/
def put? (name : String) (v : Value) : Entries → Option Entries :=
  alter? name fun
    | none => some (.value v)
    | some _ => none

/-- Puts a value under a dotted name. -/
def putDotted? (current : Nat) (parts : List String) (name : String) (v : Value) :
    Entries → Option Entries :=
  dotted? current (put? name v) parts

/-- Declares a table by a header. -/
def declare? (name : String) : Entries → Option Entries :=
  alter? name fun
    | none => some (.table .declared [])
    | some (.table .implied entries) => some (.table .declared entries)
    | some _ => none

/-- Adds an empty table to a list of tables. -/
def extend? (name : String) : Entries → Option Entries :=
  alter? name fun
    | none => some (.tables [[]])
    | some (.tables elements) => some (.tables ([] :: elements))
    | some _ => none

end Entries

end Mend.Toml
