import Mend.Detection
import Mend.Number.Numeral
import Mend.Plan
import Mend.Text.Utf8
import Mend.Toml.Reader

/-!
# Settings

The settings of a project stand in a document of sections. A setting that is not given keeps its
standard value, and a value of another kind than expected is converted where that makes sense:
anything is true or false, texts are read as numbers, and the characters of a text make a list. A
section need not be a table. Where it can be searched for the name of a setting without finding it,
it sets nothing; otherwise it is refused.
-/

namespace Mend

open Toml

/-- The settings of a project. -/
structure Settings where
  /-- Whether only safe repairs are attempted. -/
  safetyMode : Bool := true
  thresholds : Thresholds Float := .standard
  /-- Whether experience is saved. -/
  persist : Bool := true
  /-- What the list of rules to leave out holds. -/
  ignore : List Value := []
  maxBranches : Int := 10
  quantumDensity : Int := 10
  /-- Whether a file is saved before it is changed. -/
  backup : Bool := true

/-- Why settings are refused. -/
inductive SettingsError
  /-- The document is no text. -/
  | undecodable
  | malformed
  /-- The document goes deeper than documents are read. -/
  | tooDeep
  /-- A value of a kind that cannot be converted. -/
  | wrongKind
  /-- A text that writes no number, or a number that is none. -/
  | noNumber
  /-- A number beyond those that the setting can hold. -/
  | tooLarge
  deriving DecidableEq, Repr

namespace Toml.Value

/-! ## Conversions -/

/-- A value as a truth value: zero and everything empty is false. -/
def toBool : Value → Bool
  | .text s => s != ""
  | .int n => n != 0
  | .float x => x != 0.0
  | .bool b => b
  | .moment _ => true
  | .list xs => !xs.isEmpty
  | .table entries => !entries.isEmpty

/-- A truth value as a number. -/
def bit (b : Bool) : Int := if b then 1 else 0

/-- A value as a double. -/
def toDouble : Value → Except SettingsError Float
  | .text s =>
    match Numeral.double? s.toList with
    | some x => .ok x
    | none => .error .noNumber
  | .int n =>
    match ofWhole? n with
    | some x => .ok x
    | none => .error .tooLarge
  | .float x => .ok x
  | .bool b => .ok (Float.ofInt (bit b))
  | _ => .error .wrongKind

/-- A value as a whole number; the fraction of a double is dropped. -/
def toWhole : Value → Except SettingsError Int
  | .text s =>
    match Numeral.whole? s.toList with
    | some n => .ok n
    | none => .error .noNumber
  | .int n => .ok n
  | .float x =>
    match wholePart x with
    | .ok n => .ok n
    | .error .notANumber => .error .noNumber
    | .error .infinite => .error .tooLarge
  | .bool b => .ok (bit b)
  | _ => .error .wrongKind

/-- A value as a list: the characters of a text, and the names in a table. -/
def toList : Value → Except SettingsError (List Value)
  | .text s => .ok (s.toList.map fun c => .text (String.singleton c))
  | .list xs => .ok xs
  | .table entries => .ok (entries.map fun e => .text e.1)
  | _ => .error .wrongKind

/-- The text that a value is. -/
def text? : Value → Option String
  | .text s => some s
  | _ => none

/-! ## Sections -/

/-- The value of a setting in a section, if the section sets it. -/
def setting? (name : String) : Value → Except SettingsError (Option Value)
  | .table entries => .ok (entries.lookup name)
  | .text s => if Text.contains name.toList s.toList then .error .wrongKind else .ok none
  | .list xs => if xs.any fun v => v.text? == some name then .error .wrongKind else .ok none
  | _ => .error .wrongKind

end Toml.Value

namespace Settings

/-- The settings of a document, by section and name. -/
structure Document where
  sections : List (String × Value)

/-- A setting, converted; `standard` if it is not given. -/
def Document.get {α : Type} (d : Document) (convert : Value → Except SettingsError α)
    (standard : α) (place name : String) : Except SettingsError α :=
  match d.sections.lookup place with
  | none => .ok standard
  | some part =>
    match part.setting? name with
    | .error e => .error e
    | .ok none => .ok standard
    | .ok (some v) => convert v

/-- The settings of a document. They are read in this order, up to the first that is refused. -/
def ofDocument (d : Document) : Except SettingsError Settings := do
  let standard : Settings := {}
  let flag (v : Value) : Except SettingsError Bool := .ok v.toBool
  let safetyMode ← d.get flag standard.safetyMode "engine" "safety_mode"
  let safe ← d.get Value.toDouble standard.thresholds.safe "planner" "safe_confidence"
  let risky ← d.get Value.toDouble standard.thresholds.risky "planner" "risky_confidence"
  let persist ← d.get flag standard.persist "learning" "persist"
  let ignore ← d.get Value.toList standard.ignore "detector" "ignore"
  let maxBranches ← d.get Value.toWhole standard.maxBranches "detector" "max_branches"
  let quantumDensity ← d.get Value.toWhole standard.quantumDensity "detector" "quantum_density"
  let backup ← d.get flag standard.backup "fix" "backup_before_fix"
  return {
    safetyMode, thresholds := ⟨safe, risky⟩, persist, ignore, maxBranches, quantumDensity, backup }

/-- The settings in a file. -/
def ofBytes (bytes : Bytes) : Except SettingsError Settings :=
  match Utf8.decode? bytes with
  | none => .error .undecodable
  | some t =>
    match Toml.ofText t with
    | .error .malformed => .error .malformed
    | .error .tooManyDigits => .error .noNumber
    | .error .tooDeep => .error .tooDeep
    | .ok sections => ofDocument ⟨sections⟩

/-- The settings of the detector. Only texts name rules. -/
def detector (s : Settings) : DetectorSettings where
  ignore := s.ignore.filterMap Value.text?
  maxBranches := s.maxBranches
  quantumDensity := s.quantumDensity

end Settings

end Mend
