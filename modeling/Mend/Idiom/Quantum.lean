import Mend.Text.Digit
import Mend.Text.Pattern

/-!
# Quantum operations in source code

The shapes of measurements, entanglements and superpositions that rules flag and transforms
change.
-/

namespace Mend.Idiom

open Text

/-- Reads the end of a statement: a semicolon after white space, or else the white space up to and
with its last newline. -/
def statementEnd : Reader := fun t =>
  let gap := t.takeWhile isBlank
  if (t.drop gap.length).head? = some ';' then some (gap.length + 1)
  else
    let tail := (gap.reverse.takeWhile (· != '\n')).length
    if tail < gap.length then some (gap.length - tail) else none

/-- Reads up to and with the last of the given words on the line, the characters before the place
being counted by `passed`. -/
def lastOnLineFrom (word : Reader) (passed : Nat) (best : Option Nat) : Text → Option Nat
  | [] => best
  | c :: rest =>
    if c = '\n' then best
    else lastOnLineFrom word (passed + 1) (((word (c :: rest)).map (passed + ·)).or best) rest

/-- Reads up to and with the last place on the line where `word` reads something. -/
def lastOnLine (word : Reader) : Reader := lastOnLineFrom word 0 none

/-- Reads a dot with white space around it and then `name`. -/
def member (name : Reader) : Reader := .seq [.blanks, .one (· == '.'), .blanks, name]

/-- Reads a measurement of any of the three kinds that collapse the state, as a whole statement. -/
def rawMeasurement : Pattern :=
  .anywhere (.seq [
    .oneOf [.exactly "measureQuantum".toList, .exactly "observeState".toList,
      .exactly "collapseWaveFunction".toList],
    .blanks, .one (· == '('), .through ')', statementEnd])

/-- A call that measures a quantum state without protection, with the `await` in front of it. -/
def measureCall : Pattern := fun before t =>
  (Reader.seq [.exactly "await".toList, .someBlanks, .exactly "measureQuantum(".toList] t).or
    (Pattern.atWord (.exactly "measureQuantum(".toList) before t)

/-- Whether an entanglement is released before the statement ends. -/
def released (t : Text) : Bool := contains ".release()".toList (t.takeWhile (· != ';'))

/-- An entanglement that its own statement does not release. -/
def leakedEntanglement : Pattern :=
  .atWord (.seq [
    .exactly "entangle(".toList, .atLeast 1 (· != ')'), .one (· == ')'),
    .ahead fun t => !released t])

/-- White space within a line. -/
def isLineBlank (c : Char) : Bool := c == ' ' || c == '\t'

/-- A statement that entangles and keeps no name for the result. -/
def bareEntanglement : Pattern :=
  .atLine (.seq [
    .many isLineBlank, .exactly "entangle(".toList, .atLeast 1 (· != ')'), .exactly ");".toList])

/-- The front of the names that bound entanglements get. -/
def entanglementStem : Text := "entanglement_".toList

/-- A name of the kind that bound entanglements get. -/
def entanglementName : Pattern :=
  .atWord (.seq [.exactly entanglementStem, .atLeast 1 isDecimal, .wordEnd])

/-- Reads a call that collapses. -/
def collapseCall : Reader := member (.exactly "collapse()".toList)

/-- A superposition that is used again after it has collapsed. -/
def misusedSuperposition : Pattern :=
  .anywhere (.seq [
    .exactly "superposition".toList, collapseCall,
    member (.oneOf [.exactly "collapse".toList, .exactly "measure".toList])])

/-- A superposition that is collapsed more than once. -/
def repeatedCollapse : Pattern :=
  .anywhere (.seq [
    .exactly "superposition".toList, collapseCall, collapseCall, .repeated collapseCall])

/-- A superposition that is measured after it has collapsed. -/
def measuredCollapse : Pattern :=
  .anywhere (.seq [
    .exactly "superposition".toList, collapseCall, member (.exactly "measure()".toList)])

/-- A measurement with a quantum operation after it on the line where it ends. -/
def earlyMeasurement : Pattern :=
  .anywhere (.seq [
    .exactly "measure(".toList, .through ')',
    lastOnLine (.oneOf [.exactly "entangle".toList, .exactly "superpose".toList])])

/-- A call that measures. -/
def measurement : Pattern := .atWord (.exactly "measure(".toList)

/-- A call that entangles or superposes. -/
def quantumOperation : Pattern :=
  .atWord (.oneOf [.exactly "entangle(".toList, .exactly "superpose(".toList])

/-- The word that counts as a quantum operation, in any case. -/
def quantumWord : Pattern := .anywhere (.inAnyCase "quantum".toList)

/-- The words that count as quantum features, in any case. -/
def quantumFeature : Pattern :=
  .anywhere (.oneOf [
    .inAnyCase "quantum".toList, .inAnyCase "entangle".toList, .inAnyCase "superpos".toList,
    .inAnyCase "qubit".toList, .inAnyCase "measure".toList])

/-! ## Parts of a bare entanglement -/

/-- The white space in front of a bare entanglement. -/
def entanglementIndent (covered : Text) : Text := covered.takeWhile isLineBlank

/-- What a bare entanglement entangles. -/
def entanglementArguments (covered : Text) : Text :=
  ((covered.dropWhile isLineBlank).drop "entangle(".length).takeWhile (· != ')')

/-- The largest number in a name of the kind that bound entanglements get, or 0. -/
def lastEntanglement (t : Text) : Nat :=
  (hits entanglementName t).foldl
    (fun n h => max n (decimalValue (h.covered.drop entanglementStem.length))) 0

end Mend.Idiom
