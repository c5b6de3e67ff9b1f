import Mend.Fix.Basic
import Mend.Fix.Place
import Mend.Idiom.Control

/-!
# Fixes of awaits, asynchronous functions and complex functions

Each of them changes one place, at the line that the issue means.
-/

namespace Mend.Fix

open Text

/-! ## Handlers around awaits -/

/-- Whether the line at an index awaits and is not yet the first line of a handled block. -/
def isUnwrapped (ls : Array Text) (index : Nat) : Bool :=
  contains "await".toList (ls.getD index []) &&
    !(0 < index && trim (ls.getD (index - 1) []) == "try \x7b".toList)

/-- A line inside a block that catches errors, reports them and throws them again. -/
def handled (line : Text) : List Text :=
  let margin := indent line
  [margin ++ "try \x7b".toList,
    margin ++ "  ".toList ++ trim line,
    margin ++ "\x7d catch (error) \x7b".toList,
    margin ++ "  console.error('Async operation failed:', error)".toList,
    margin ++ "  throw error".toList,
    margin ++ "\x7d".toList]

/-- Puts a handler around the awaited statement that an issue means. -/
def addErrorHandling (t : Text) (i : Issue) : Fix :=
  let ls := lines t
  match place? ls i (isUnwrapped ls.toArray) with
  | none => nothing t "No unhandled awaited statement at the reported line"
  | some index =>
    let line := ls.getD index []
    let block := handled line
    { success := true
      source := t
      fixed := unlines (replaceLine ls index block)
      changes := [{
        kind := .add
        line := index + 1
        description := "Wrapped awaited statement in try/catch"
        before := some line
        after := some (unlines block) }]
      confidence := 0.9
      explanation := "Added error handling around async operation" }

/-! ## Functions that need not be asynchronous -/

/-- Makes the function that an issue means synchronous. -/
def removeRedundantAsync (t : Text) (i : Issue) : Fix :=
  let ls := lines t
  let rows := ls.toArray
  match place? ls i fun k => occurs Idiom.asyncFunction (rows.getD k []) with
  | none => nothing t "No async function declaration at the reported line"
  | some index =>
    let line := ls.getD index []
    let new := replaceFirst Idiom.asyncFunction "function".toList line
    { success := true
      source := t
      fixed := unlines (replaceLine ls index [new])
      changes := [{
        kind := .modify
        line := index + 1
        description := "Removed async from function without await"
        before := some line
        after := some new }]
      confidence := 0.85
      explanation := "Function declared async but never awaits; made it synchronous"
      warnings := ["Callers that rely on a returned Promise must be checked"] }

/-! ## Complex functions -/

/-- Advice on how to make a function simpler. -/
def advice (margin : Text) : List Text :=
  [margin ++ "// REFACTOR: high cyclomatic complexity detected here".toList,
    margin ++ "// Consider splitting this function into smaller ones".toList]

/-- Leaves advice above the function that an issue means. -/
def annotateComplexity (t : Text) (i : Issue) : Fix :=
  let ls := lines t
  match place? ls i fun _ => true with
  | none => nothing t "Complexity issue has no line to annotate"
  | some index =>
    let notes := advice (indent (ls.getD index []))
    { success := true
      source := t
      fixed := unlines (insertAbove ls index notes)
      changes := [{
        kind := .add
        line := index + 1
        description := "Added refactoring guidance comments"
        after := some (unlines notes) }]
      confidence := 0.5
      explanation := "Added comments to guide manual refactoring"
      warnings := ["This function needs manual refactoring to reduce its complexity"] }

end Mend.Fix
