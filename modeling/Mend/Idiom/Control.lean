import Mend.Text.Pattern

/-!
# Functions, awaits and branches in source code
-/

namespace Mend.Idiom

open Text

/-- What a block holds up to the first closing brace. -/
def block (t : Text) : Text := t.takeWhile (· != '}')

/-- Whether a block holds the word `await`. -/
def awaits (t : Text) : Bool := occurs (.word ["await".toList]) (block t)

/-- Reads a block that never awaits, up to and with its closing brace. -/
def idleBlock : Reader := fun t =>
  match Reader.through '}' t with
  | none => none
  | some n => if awaits t then none else some n

/-- An asynchronous function whose body, up to the first closing brace, never awaits. -/
def idleAsync : Pattern :=
  .atWord (.seq [
    .exactly "async".toList, .someBlanks, .exactly "function".toList, .through '{', idleBlock])

/-- The head of an asynchronous function. -/
def asyncFunction : Pattern :=
  .atWord (.seq [.exactly "async".toList, .someBlanks, .exactly "function".toList, .wordEnd])

/-- Reads what is awaited, up to the semicolon: white space and at least one more character. -/
def awaitedOperand : Reader := fun t =>
  let n := run (· != ';') t
  if 2 ≤ n && t.head?.any isBlank then some n else none

/-- Whether the block that ends next is followed by a handler. -/
def caught (t : Text) : Bool :=
  (Reader.seq [.through '}', .blanks, .exactly "catch".toList] t).isSome

/-- An awaited statement in a block that no handler follows. -/
def unhandledAwait : Pattern :=
  .atWord (.seq [
    .exactly "await".toList, awaitedOperand, .one (· == ';'), .ahead fun t => !caught t])

/-- A function with its body up to the first closing brace. -/
def functionBody : Pattern :=
  .anywhere (.seq [.exactly "function".toList, .through '{', .through '}'])

/-- A place where a function branches. -/
def branch : Pattern := fun before t =>
  (Pattern.word ["if".toList, "for".toList, "while".toList, "switch".toList, "case".toList]
    before t).or (Reader.one (· == '?') t)

/-- The words that open a branch of the control flow. -/
def branchKeyword : Pattern :=
  .word ["if".toList, "else".toList, "for".toList, "while".toList, "switch".toList, "case".toList,
    "catch".toList]

/-- The operators that branch inside an expression. -/
def branchOperator : Pattern :=
  .anywhere (.oneOf [
    .exactly "?".toList, .exactly "&&".toList, .exactly "||".toList])

end Mend.Idiom
