import Mend.Experience

/-!
# Experience that outlives the program

A store holds experience in memory and, if it is persistent, a table with a row for every record.
Saving refuses a confidence that is not a number; the record in memory has changed by then. A store
that is opened again knows what the table holds. Left out: others that use the table, too, and every
other reason for which it can refuse to save.
-/

namespace Mend

/-- A record as it is saved: the moment is written as a text. -/
structure Row where
  strategy : String
  rule : String
  attempts : Nat
  successes : Nat
  confidence : Float
  updated : String

namespace Row

/-- The strategy and the rule of a row; no two rows of a table share both. -/
def key (w : Row) : String × String := (w.strategy, w.rule)

/-- The row for a record. Zero is saved without a sign. -/
def ofRecord (r : Record Float) : Row where
  strategy := r.strategy
  rule := r.rule
  attempts := r.attempts
  successes := r.successes
  confidence := if r.confidence == 0.0 then 0.0 else r.confidence
  updated := r.updated.text

/-- The record that a row was saved for. -/
def record? (w : Row) : Option (Record Float) :=
  match Instant.ofText? w.updated with
  | none => none
  | some updated => some {
    strategy := w.strategy
    rule := w.rule
    attempts := w.attempts
    successes := w.successes
    confidence := w.confidence
    updated }

/-- Puts a row behind all others, and takes away the one with its key. -/
def insert (w : Row) (rows : List Row) : List Row := rows.filter (·.key ≠ w.key) ++ [w]

end Row

/-- Why a record is not saved, or a table is not read. -/
inductive StoreError
  | confidenceNotANumber
  /-- A row with a time that is none. -/
  | malformedTime
  deriving DecidableEq, Repr

/-- Experience in memory, and the table of a persistent store. -/
structure Store where
  live : Experience Float := {}
  saved : Option (List Row) := none

namespace Store

/-- A store that saves nothing. -/
def inMemory : Store := {}

/-- A persistent store in which nothing is saved yet. -/
def fresh : Store := { saved := some [] }

/-- A persistent store with the given rows. -/
def ofRows (rows : List Row) : Except StoreError Store :=
  match rows.mapM Row.record? with
  | none => .error .malformedTime
  | some records => .ok { live := ⟨records⟩, saved := some rows }

/-- Whether a store saves its records. -/
def persistent (s : Store) : Bool := s.saved.isSome

/-- Saves a record. -/
def save (s : Store) (r : Record Float) : Except StoreError Store :=
  match s.saved with
  | none => .ok s
  | some rows =>
    if r.confidence.isNaN then .error .confidenceNotANumber
    else .ok { s with saved := some ((Row.ofRecord r).insert rows) }

/-- Records one more outcome and saves the record. The store answers even if saving fails. -/
def record (s : Store) (strategy rule : String) (success : Bool) (base : Float) (now : Instant) :
    Except StoreError (Record Float) × Store :=
  let next := s.live.next strategy rule success base now
  let changed := { s with live := s.live.add strategy rule success base now }
  match changed.save next with
  | .ok saved => (.ok next, saved)
  | .error e => (.error e, changed)

/-- Forgets all records, also the saved ones, and answers how many there were in memory. -/
def reset (s : Store) : Nat × Store :=
  (s.live.size, { live := {}, saved := s.saved.map fun _ => [] })

/-- A new store in the same place: it knows what was saved. -/
def reopen (s : Store) : Except StoreError Store :=
  match s.saved with
  | none => .ok inMemory
  | some rows => ofRows rows

end Store

end Mend
