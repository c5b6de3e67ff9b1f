import Mend.Text.Pattern

/-!
# Logging, secrets and imports in source code
-/

namespace Mend.Idiom

open Text

/-- A call that writes to the console. -/
def consoleLog : Pattern := .anywhere (.exactly "console.log(".toList)

/-! ## Secrets -/

/-- The three kinds of quotes around a string: single, double and back quotes. -/
def isQuote (c : Char) : Bool := "\x27\x22\x60".toList.contains c

/-- The sign between a name and its value. -/
def isAssignment (c : Char) : Bool := c == ':' || c == '='

/-- The characters of encoded keys. -/
def isSecretChar (c : Char) : Bool := c.isAlphanum || c == '+' || c == '/' || c == '='

/-- The characters of encoded keys when case is ignored, which lets in the characters beyond ASCII
that fold to ASCII letters. -/
def isSecretCharAnyCase (c : Char) : Bool :=
  isSecretChar c || sameLetter 'k' c || sameLetter 's' c || sameLetter 'i' c

/-- The number of characters from which on a literal counts as a secret. -/
def secretLength : Nat := 20

/-- Reads an assignment sign and a long quoted literal of the given characters. -/
def assignedLiteral (p : Char → Bool) : Reader :=
  .seq [.blanks, .one isAssignment, .blanks, .one isQuote, .atLeast secretLength p, .one isQuote]

/-- Reads a word that names a secret, in any case. -/
def secretKeyword : Reader :=
  .oneOf [
    .seq [.inAnyCase "private".toList, .optional (.one fun c => c == '_' || c == '-'),
      .inAnyCase "key".toList],
    .inAnyCase "secret".toList, .inAnyCase "password".toList, .inAnyCase "token".toList]

/-- A long literal given to something that is named like a secret. -/
def hardcodedSecret : Pattern :=
  .anywhere (.seq [secretKeyword, assignedLiteral isSecretCharAnyCase])

/-- A long literal given to any name. -/
def secretAssignment : Pattern :=
  .atWord (.seq [.atLeast 1 isWord, assignedLiteral isSecretChar])

/-- The name in an assignment of a secret. -/
def secretName (covered : Text) : Text := covered.takeWhile isWord

/-- The white space between the name and the sign in an assignment of a secret. -/
def secretGap (covered : Text) : Text := (covered.dropWhile isWord).takeWhile isBlank

/-- Whether the sign in an assignment of a secret is a colon. -/
def secretIsProperty (covered : Text) : Bool :=
  ((covered.dropWhile isWord).dropWhile isBlank).head? == some ':'

/-! ## Imports -/

/-- An import of names in braces. -/
def namedImport : Pattern :=
  .anywhere (.seq [
    .exactly "import".toList, .someBlanks, .one (· == '{'), .atLeast 1 (· != '}'),
    .one (· == '}'), .someBlanks, .exactly "from".toList])

/-- A line with a named import, cut at the braces: what is up to and with the opening brace, what
is inside, and what is from the closing brace on. -/
structure ImportLine where
  head : Text
  inside : Text
  tail : Text

/-- Cuts a line at the braces of its first named import. -/
def importLine? (line : Text) : Option ImportLine :=
  (firstMatch? namedImport line).map fun m =>
    let opening := m.covered.takeWhile (· != '{')
    let rest := m.covered.drop (opening.length + 1)
    { head := m.before ++ opening ++ ['{']
      inside := rest.takeWhile (· != '}')
      tail := rest.dropWhile (· != '}') ++ m.after }

/-- The specifiers between the braces of an import, without the empty ones. -/
def importSpecifiers (inside : Text) : List Text :=
  ((inside.splitOn ',').map trim).filter fun s => !s.isEmpty

/-- The name that a specifier binds in the file: its last word. -/
def boundName (specifier : Text) : Text := (words specifier).getLastD []

end Mend.Idiom
