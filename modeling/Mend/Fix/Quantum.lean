import Mend.Fix.Basic
import Mend.Fix.Place
import Mend.Idiom.Quantum

/-!
# Fixes of quantum operations
-/

namespace Mend.Fix

open Text

/-! ## Protected measurements -/

/-- The name of the call that measures under protection. -/
def protectedCall : Text := "measureQuantumWithProtection".toList

/-- The line that imports the call that measures under protection. -/
def protectionImport : Text :=
  "import \x7b measureQuantumWithProtection \x7d from '../quantum/quantum-protection'".toList

/-- Protects the measurement that an issue means, and imports the protection if the text does not
mention it. -/
def protectMeasurement (t : Text) (i : Issue) : Fix :=
  let ls := lines t
  let rows := ls.toArray
  match place? ls i fun k => occurs Idiom.measureCall (rows.getD k []) with
  | none => nothing t "No measureQuantum() call at the reported line"
  | some index =>
    let line := ls.getD index []
    let new := replaceFirst Idiom.measureCall ("await ".toList ++ protectedCall ++ ['(']) line
    let replaced := replaceLine ls index [new]
    let protection : Change := {
      kind := .modify
      line := index + 1
      description := "Replaced quantum measurement with decoherence-protected call"
      before := some line
      after := some new }
    let imports : Change := {
      kind := .add
      line := 1
      description := "Imported measureQuantumWithProtection"
      after := some protectionImport }
    let known := contains protectedCall t
    { success := true
      source := t
      fixed := unlines (if known then replaced else protectionImport :: replaced)
      changes := if known then [protection] else [protection, imports]
      confidence := 0.85
      explanation := "Added protection against quantum decoherence" }

/-! ## Entanglements with a name -/

/-- The name of the `n`-th entanglement. -/
def entanglementName (n : Nat) : Text := Idiom.entanglementStem ++ (toString n).toList

/-- A bare entanglement that is bound to a name and followed by a reminder to release it. -/
def bound (name covered : Text) : Text :=
  let margin := Idiom.entanglementIndent covered
  margin ++ "const ".toList ++ name ++ " = entangle(".toList
    ++ Idiom.entanglementArguments covered ++ ");\n".toList
    ++ margin ++ "// Release ".toList ++ name ++ " once the operation completes:\n".toList
    ++ margin ++ "// ".toList ++ name ++ ".release();".toList

/-- The digits of the numbers in names of the kind that bound entanglements get. -/
def entanglementDigits (t : Text) : List Nat :=
  (hits Idiom.entanglementName t).map fun h => h.covered.length - Idiom.entanglementStem.length

/-- The reason for which the entanglements of a text cannot be numbered on, `count` of them being
new. -/
def numberingError? (t : Text) (count : Nat) : Option FixError :=
  match (entanglementDigits t).find? (FixError.digitLimit < ·) with
  | some digits => some (.tooManyDigits digits)
  | none =>
    if count ≠ 0 && Nat.pow 10 FixError.digitLimit ≤ Idiom.lastEntanglement t + count
    then some .numberTooLong else none

/-- Gives every bare entanglement a name, numbered on from the largest number in use. -/
def bindEntanglement (t : Text) (_ : Issue) : Except FixError Fix :=
  let pieces := scan Idiom.bareEntanglement t
  let found := Piece.hits pieces
  match numberingError? t found.length with
  | some e => .error e
  | none =>
    let last := Idiom.lastEntanglement t
    let name (h : Hit) : Text := entanglementName (last + h.number + 1)
    if found.isEmpty then .ok (nothing t "No unbound entangle() statements found")
    else .ok {
      success := true
      source := t
      fixed := Piece.replace (fun h => bound (name h) h.covered) pieces
      changes := found.map fun h => {
        kind := .modify
        line := h.line
        description := "Bound entanglement to " ++ String.ofList (name h) ++ " with release reminder"
        before := some h.covered
        after := some (bound (name h) h.covered) }
      confidence := 0.8
      explanation := "Added release reminders for entanglements"
      warnings := ["Review where each entanglement should be released"] }

/-! ## Superpositions that collapse once -/

/-- The changes that replace every hit of a pattern by the same text. -/
def uniformChanges (p : Pattern) (new : Text) (description : String) (t : Text) : List Change :=
  (hits p t).map fun h => {
    kind := .modify
    line := h.line
    description := description
    before := some h.covered
    after := some new }

/-- A superposition that collapses. -/
def singleCollapse : Text := "superposition.collapse()".toList

/-- A superposition that collapses, with a note on why it is not measured again. -/
def notedCollapse : Text := "superposition.collapse() /* already measured during collapse */".toList

/-- Removes collapses after the first, and then measurements after a collapse. The lines of the
second kind are counted in the text that the removal of the first kind has left. -/
def collapseSuperposition (t : Text) (_ : Issue) : Fix :=
  let once := replaceHits Idiom.repeatedCollapse (fun _ => singleCollapse) t
  let fixed := replaceHits Idiom.measuredCollapse (fun _ => notedCollapse) once
  let changes :=
    uniformChanges Idiom.repeatedCollapse singleCollapse "Removed repeated collapse" t
      ++ uniformChanges Idiom.measuredCollapse notedCollapse
        "Removed measurement of collapsed superposition" once
  if changes.isEmpty then nothing t "No misuse of collapsed superposition found"
  else {
    success := true
    source := t
    fixed := fixed
    changes := changes
    confidence := 0.75
    explanation := "Corrected operations on collapsed superposition states" }

/-! ## Measurements that come last -/

/-- Whether a statement measures and does no other quantum operation. -/
def isMeasurement (statement : Text) : Bool :=
  occurs Idiom.measurement statement && !occurs Idiom.quantumOperation statement

/-- The statements of a line, without the white space around them and without empty ones. -/
def statements (line : Text) : List Text :=
  ((line.splitOn ';').map trim).filter fun s => !s.isEmpty

/-- The statements of a line with the measurements behind the others. -/
def measurementsLast (ss : List Text) : List Text :=
  ss.filter (fun s => !isMeasurement s) ++ ss.filter isMeasurement

/-- A line that holds these statements. -/
def statementLine (margin : Text) (ss : List Text) : Text :=
  margin ++ List.intercalate "; ".toList ss ++ [';']

/-- The line with its measurements moved behind the other statements, if that changes it. Lines
with a comment are left alone. -/
def deferred? (line : Text) : Option Text :=
  if contains "//".toList line || !occurs Idiom.earlyMeasurement line then none
  else
    let ss := statements line
    if ss.any isMeasurement && ss.any (fun s => !isMeasurement s) then
      let new := statementLine (indent line) (measurementsLast ss)
      if new = line then none else some new
    else none

/-- Moves measurements behind the quantum operations on the same line. -/
def deferMeasurement (t : Text) (_ : Issue) : Fix :=
  let rows := (lines t).map fun line => (line, deferred? line)
  let changes : List Change := rows.zipIdx.filterMap fun row =>
    row.1.2.map fun new => {
      kind := .move
      line := row.2 + 1
      description := "Moved measurement after quantum operations"
      before := some row.1.1
      after := some new }
  if changes.isEmpty then nothing t "No measurement precedes a quantum operation"
  else {
    success := true
    source := t
    fixed := unlines (rows.map fun row => row.2.getD row.1)
    changes := changes
    confidence := 0.8
    explanation := "Reordered quantum operations so measurement happens last" }

end Mend.Fix
