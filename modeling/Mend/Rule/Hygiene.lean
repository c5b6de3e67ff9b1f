import Mend.Idiom.Control
import Mend.Idiom.Hygiene
import Mend.Rule.Basic

/-!
# Rules about error handling, security and upkeep
-/

namespace Mend.Rule

open Text

/-- Asynchronous functions that never await. -/
def asyncWithoutAwait : Rule where
  id := "async_without_await"
  title := "Async function without await"
  category := .error
  severity := .medium
  description := "Async function never awaits and could be synchronous"
  suggestion := "Remove async or await where needed"
  find t := .ok (eachHit Idiom.idleAsync t)

/-- Awaited statements that no handler follows. -/
def missingErrorHandling : Rule where
  id := "missing_error_handling"
  title := "Missing error handling"
  category := .error
  severity := .medium
  description := "Awaited operation without error handling"
  suggestion := "Add try/catch to handle potential errors"
  find t := .ok (eachHit Idiom.unhandledAwait t)

/-- Output to the console. -/
def consoleLogging : Rule where
  id := "console_log_in_production"
  title := "console.log in production"
  category := .optimization
  severity := .low
  description := "Avoid console.log in production code"
  suggestion := "Use a configurable logging system"
  find t := .ok (firstHit Idiom.consoleLog t)

/-- Secrets that are written down in the source. -/
def hardcodedKeys : Rule where
  id := "hardcoded_private_keys"
  title := "Hardcoded private keys"
  category := .security
  severity := .critical
  description := "Possible private key or secret in source"
  suggestion := "Move secrets to environment variables"
  find t := .ok (firstHit Idiom.hardcodedSecret t)

/-- Whether an import names something that the other lines never mention. -/
def isUnused (l : Idiom.ImportLine) (others : Text) : Bool :=
  (Idiom.importSpecifiers l.inside).any fun s => !mentions (Idiom.boundName s) others

/-- Looks for the first line with an unused import, `before` being the lines in front of the place,
last first. -/
def findUnusedImport (before : List Text) : List Text → List Finding
  | [] => []
  | line :: after =>
    match Idiom.importLine? line with
    | none => findUnusedImport (line :: before) after
    | some l =>
      if isUnused l (unlines (before.reverseAux after)) then [{ evidence := trim line }]
      else findUnusedImport (line :: before) after

/-- Named imports with a name that is never used. -/
def unusedImports : Rule where
  id := "unused_imports"
  title := "Unused imports"
  category := .optimization
  severity := .low
  description := "Imports that are not used in the file"
  suggestion := "Remove unneeded imports to reduce bundle size"
  find t := .ok (findUnusedImport [] (lines t))

/-- Whether a function branches more often than a limit. -/
def exceeds (limit : Int) (body : Text) : Bool := limit < hitCount Idiom.branch body

/-- Functions that branch more often than a limit; the first one is reported. -/
def highComplexity (limit : Int) : Rule where
  id := "high_complexity"
  title := "High cyclomatic complexity"
  category := .optimization
  severity := .medium
  description := "Function has too much cyclomatic complexity"
  suggestion := "Refactor into smaller functions"
  find t :=
    .ok (match (hits Idiom.functionBody t).find? fun h => exceeds limit h.covered with
      | none => []
      | some h =>
        [{ line := some h.line, evidence := trim (h.covered.takeWhile (· != '\n')) }])

end Mend.Rule
