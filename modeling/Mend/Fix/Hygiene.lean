import Mend.Fix.Basic
import Mend.Idiom.Hygiene

/-!
# Fixes of logging, secrets and imports

Each of them goes through the whole text, whatever line the issue names.
-/

namespace Mend.Fix

open Text

/-! ## Logging -/

/-- The line that imports the logger. -/
def loggerImport : Text := "import \x7b logger \x7d from '../utils/logger'".toList

/-- A line that logs instead of writing to the console. -/
def logged (line : Text) : Text :=
  replaceHits Idiom.consoleLog (fun _ => "logger.debug(".toList) line

/-- Logs instead of writing to the console, and imports the logger if the text seems to have no
imports and no logger. -/
def replaceConsoleLog (t : Text) (_ : Issue) : Fix :=
  let rows := (lines t).map fun line => (line, hitCount Idiom.consoleLog line)
  let total : Nat := rows.foldl (fun n row => n + row.2) 0
  if total = 0 then nothing t "No console.log calls found"
  else
    let changes : List Change := rows.zipIdx.filterMap fun row =>
      if row.1.2 = 0 then none else some {
        kind := .modify
        line := row.2 + 1
        description := "Replaced console.log with logger.debug"
        before := some row.1.1
        after := some (logged row.1.1) }
    let imports : Change := {
      kind := .add
      line := 1
      description := "Imported logger"
      after := some loggerImport }
    let fixed := unlines (rows.map fun row => logged row.1)
    let known := contains "import".toList t || contains "logger".toList t
    { success := true
      source := t
      fixed := if known then fixed else loggerImport ++ "\n\n".toList ++ fixed
      changes := if known then changes else changes ++ [imports]
      confidence := 0.95
      explanation := s!"Replaced {total} console.log call(s) with logger.debug" }

/-! ## Secrets -/

/-- The name of the environment variable that a secret is moved to. -/
def environmentName (covered : Text) : Text := upper (Idiom.secretName covered)

/-- An assignment that looks a secret up in the environment. The white space in front of an equals
sign is kept. -/
def externalized (covered : Text) : Text :=
  Idiom.secretName covered
    ++ (if Idiom.secretIsProperty covered then ": ".toList
      else Idiom.secretGap covered ++ "= ".toList)
    ++ "process.env.".toList ++ environmentName covered
    ++ " || 'REPLACE_WITH_ENV_VAR'".toList

/-- Looks secrets up in the environment instead of writing them down. -/
def externalizeSecrets (t : Text) (_ : Issue) : Fix :=
  let pieces := scan Idiom.secretAssignment t
  let found := Piece.hits pieces
  if found.isEmpty then nothing t "No hardcoded secret literals found"
  else {
    success := true
    source := t
    fixed := Piece.replace (fun h => externalized h.covered) pieces
    changes := found.map fun h => {
      kind := .modify
      line := h.line
      description := "Moved secret " ++ String.ofList (Idiom.secretName h.covered)
        ++ " to environment variable " ++ String.ofList (environmentName h.covered)
      before := some h.covered
      after := some (externalized h.covered) }
    confidence := 0.7
    explanation := "Moved secrets to environment variables"
    warnings := ["Set the corresponding environment variables before deploying"] }

/-! ## Imports -/

/-- How far the imports of a text are pruned: the lines that are kept so far and the changes, each
last first, and the number of specifiers that were dropped. -/
structure Pruning where
  kept : List Text := []
  changes : List Change := []
  removed : Nat := 0

/-- The specifiers of an import whose names other lines mention. -/
def usedSpecifiers (specifiers : List Text) (others : Text) : List Text :=
  specifiers.filter fun s => mentions (Idiom.boundName s) others

/-- An import line with only the given specifiers. -/
def importOf (l : Idiom.ImportLine) (specifiers : List Text) : Text :=
  l.head ++ [' '] ++ List.intercalate ", ".toList specifiers ++ [' '] ++ l.tail

/-- Prunes one line, the `number`-th, with `after` still to come. -/
def Pruning.step (s : Pruning) (number : Nat) (line : Text) (after : List Text) : Pruning :=
  match Idiom.importLine? line with
  | none => { s with kept := line :: s.kept }
  | some l =>
    let specifiers := Idiom.importSpecifiers l.inside
    let used := usedSpecifiers specifiers (unlines (s.kept.reverseAux after))
    let unused := specifiers.length - used.length
    if unused = 0 then { s with kept := line :: s.kept }
    else if used.isEmpty then
      { kept := s.kept
        changes := {
          kind := .remove
          line := number
          description := "Removed import with no used bindings"
          before := some line } :: s.changes
        removed := s.removed + unused }
    else
      let new := importOf l used
      { kept := new :: s.kept
        changes := {
          kind := .modify
          line := number
          description := s!"Removed {unused} unused import(s)"
          before := some line
          after := some new } :: s.changes
        removed := s.removed + unused }

/-- Prunes line after line, from the `number`-th on. -/
def pruneFrom (s : Pruning) (number : Nat) : List Text → Pruning
  | [] => s
  | line :: after => pruneFrom (s.step number line after) (number + 1) after

/-- Drops imported names that no other line mentions, and imports that are left with none. -/
def pruneImports (t : Text) (_ : Issue) : Fix :=
  let s := pruneFrom {} 1 (lines t)
  if s.removed = 0 then nothing t "No unused named imports found"
  else {
    success := true
    source := t
    fixed := unlines s.kept.reverse
    changes := s.changes.reverse
    confidence := 0.9
    explanation := s!"Removed {s.removed} unused import(s)" }

end Mend.Fix
