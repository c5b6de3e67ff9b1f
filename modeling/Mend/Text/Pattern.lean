import Mend.Text.Basic
import Mend.Text.Case

/-!
# Patterns and where they are found

A `Reader` reads a piece from the front of a text and answers how long the piece is. A `Pattern` may
look at the character before the place as well. Readers choose nothing: each reads at most one
piece, so that a sequence of them never has to go back.

`scan` cuts a text into the hits of a pattern, left to right and without overlap, and the single
characters between them. `firstMatch?` stops at the first hit.

* `flatMap_source_scan`: the pieces of a scan, put together, are the text that was scanned.
* `firstMatch?_eq_some`: what was found stands between what is before and what is after it.
-/

namespace Mend.Text

/-! ## Readers -/

/-- Reads a piece from the front of a text: its length, if there is such a piece. -/
abbrev Reader := Text → Option Nat

namespace Reader

/-- Reads exactly these characters. -/
def exactly (w : Text) : Reader := fun t =>
  if w.isPrefixOf t then some w.length else none

/-- Reads this word of lower-case letters in any case. -/
def inAnyCase (w : Text) : Reader := fun t =>
  let front := t.take w.length
  if front.length = w.length && (w.zip front).all fun p => sameLetter p.1 p.2
  then some w.length else none

/-- Reads the longest run of characters with a property, which may be empty. -/
def many (p : Char → Bool) : Reader := fun t => some (run p t)

/-- Reads the longest run of characters with a property if it has at least `n` of them. -/
def atLeast (n : Nat) (p : Char → Bool) : Reader := fun t =>
  let m := run p t
  if n ≤ m then some m else none

/-- Reads one character with a property. -/
def one (p : Char → Bool) : Reader
  | [] => none
  | c :: _ => if p c then some 1 else none

/-- Reads up to and with the next `c`. -/
def through (c : Char) : Reader := fun t =>
  let n := run (· != c) t
  if (t.drop n).isEmpty then none else some (n + 1)

/-- Reads white space, which may be none. -/
def blanks : Reader := many isBlank

/-- Reads at least one character of white space. -/
def someBlanks : Reader := atLeast 1 isBlank

/-- Reads nothing, where a word has just ended. -/
def wordEnd : Reader
  | [] => some 0
  | c :: _ => if isWord c then none else some 0

/-- Reads nothing, where the rest of the text has a property. -/
def ahead (p : Text → Bool) : Reader := fun t => if p t then some 0 else none

/-- Reads what the first of several readers that can read reads. -/
def oneOf : List Reader → Reader
  | [], _ => none
  | r :: rs, t => (r t).or (oneOf rs t)

/-- Reads one piece after the other. -/
def seq : List Reader → Reader
  | [], _ => some 0
  | r :: rs, t =>
    match r t with
    | none => none
    | some n => (seq rs (t.drop n)).map (n + ·)

/-- Reads what `r` reads, or nothing. -/
def optional (r : Reader) : Reader := fun t => some ((r t).getD 0)

/-- Reads what `r` reads, at most `fuel` times and as long as it reads something. -/
def upTo (r : Reader) : Nat → Reader
  | 0, _ => some 0
  | fuel + 1, t =>
    match r t with
    | some (n + 1) => (upTo r fuel (t.drop (n + 1))).map (n + 1 + ·)
    | _ => some 0

/-- Reads what `r` reads as often as it reads something. -/
def repeated (r : Reader) : Reader := fun t => upTo r t.length t

end Reader

/-! ## Patterns -/

/-- What is looked for in a text: given the character before a place, what is read there. -/
abbrev Pattern := Option Char → Reader

namespace Pattern

/-- Looks for what a reader reads, at any place. -/
def anywhere (r : Reader) : Pattern := fun _ => r

/-- Looks for what a reader reads where a word starts. -/
def atWord (r : Reader) : Pattern := fun before t => if before.any isWord then none else r t

/-- Looks for what a reader reads where a line starts. -/
def atLine (r : Reader) : Pattern := fun before t =>
  if before.all (· == '\n') then r t else none

/-- Looks for one of several words. -/
def word (ws : List Text) : Pattern :=
  atWord (.oneOf (ws.map fun w => .seq [.exactly w, .wordEnd]))

end Pattern

/-! ## Scanning -/

/-- A place where a pattern was found. -/
structure Hit where
  /-- How many hits stand before it. -/
  number : Nat
  /-- The line it starts on, counted from 1. -/
  line : Nat
  /-- The characters it covers. -/
  covered : Text
  deriving DecidableEq, Repr

/-- A piece of a scanned text: a hit, or a character outside all hits. -/
inductive Piece
  | plain (c : Char)
  | hit (h : Hit)
  deriving DecidableEq, Repr

/-- The characters of a piece. -/
def Piece.source : Piece → Text
  | .plain c => [c]
  | .hit h => h.covered

/-- Where a scan stands: the character before, the line, the hits so far, and how many of the next
characters still belong to the last hit. -/
structure Cursor where
  before : Option Char := none
  line : Nat := 1
  found : Nat := 0
  covered : Nat := 0

/-- The cursor after one more character, with `covered` more to go. -/
def Cursor.past (k : Cursor) (c : Char) (found covered : Nat) : Cursor :=
  ⟨some c, if c = '\n' then k.line + 1 else k.line, found, covered⟩

/-- Scans on from a cursor, the pieces found so far being given last first. -/
def scanOnto (p : Pattern) (k : Cursor) : Text → List Piece → List Piece
  | [], pieces => pieces
  | c :: rest, pieces =>
    match k.covered with
    | n + 1 => scanOnto p (k.past c k.found n) rest pieces
    | 0 =>
      match p k.before (c :: rest) with
      | some (n + 1) =>
        scanOnto p (k.past c (k.found + 1) n) rest
          (.hit ⟨k.found, k.line, (c :: rest).take (n + 1)⟩ :: pieces)
      | _ => scanOnto p (k.past c k.found 0) rest (.plain c :: pieces)

/-- Cuts a text into the hits of a pattern and the characters between them. -/
def scan (p : Pattern) (t : Text) : List Piece := (scanOnto p {} t []).reverse

/-- The hits among the pieces of a scan. -/
def Piece.hits (pieces : List Piece) : List Hit :=
  pieces.filterMap fun
    | .plain _ => none
    | .hit h => some h

/-- The text of a scan with every hit replaced. -/
def Piece.replace (f : Hit → Text) (pieces : List Piece) : Text :=
  pieces.flatMap fun
    | .plain c => [c]
    | .hit h => f h

/-- The hits of a pattern in a text, left to right. -/
def hits (p : Pattern) (t : Text) : List Hit := Piece.hits (scan p t)

/-- How many hits a pattern has in a text. -/
def hitCount (p : Pattern) (t : Text) : Nat := (hits p t).length

/-- A text with every hit of a pattern replaced. -/
def replaceHits (p : Pattern) (f : Hit → Text) (t : Text) : Text := Piece.replace f (scan p t)

theorem flatMap_source_scanOnto (p : Pattern) (t : Text) :
    ∀ (k : Cursor) (pieces : List Piece),
      (scanOnto p k t pieces).reverse.flatMap Piece.source =
        pieces.reverse.flatMap Piece.source ++ t.drop k.covered := by
  induction t with
  | nil => intro k pieces; simp [scanOnto]
  | cons c rest ih =>
    intro k pieces
    rw [scanOnto]
    split
    · next n hn => simp [ih, Cursor.past, hn]
    · next hn =>
      split
      · simp [ih, Cursor.past, hn, Piece.source]
      · simp [ih, Cursor.past, hn, Piece.source]

/-- A scan loses nothing: its pieces make up the text. -/
theorem flatMap_source_scan (p : Pattern) (t : Text) :
    (scan p t).flatMap Piece.source = t := by
  simp [scan, flatMap_source_scanOnto]

/-! ## The first hit -/

/-- A hit with the text on either side of it. -/
structure Match where
  before : Text
  covered : Text
  after : Text
  deriving DecidableEq, Repr

/-- Looks for the first hit from a place on, the characters before it being given last first. -/
def findFrom (p : Pattern) (before : Text) : Text → Option Match
  | [] => none
  | c :: rest =>
    match p before.head? (c :: rest) with
    | some (n + 1) => some ⟨before.reverse, (c :: rest).take (n + 1), (c :: rest).drop (n + 1)⟩
    | _ => findFrom p (c :: before) rest

/-- The first hit of a pattern in a text. -/
def firstMatch? (p : Pattern) (t : Text) : Option Match := findFrom p [] t

/-- Whether a pattern has a hit in a text. -/
def occurs (p : Pattern) (t : Text) : Bool := (firstMatch? p t).isSome

/-- A text with the first hit of a pattern replaced. -/
def replaceFirst (p : Pattern) (new : Text) (t : Text) : Text :=
  match firstMatch? p t with
  | some m => m.before ++ new ++ m.after
  | none => t

theorem findFrom_eq_some {p : Pattern} {t : Text} :
    ∀ {before : Text} {m : Match}, findFrom p before t = some m →
      m.before ++ m.covered ++ m.after = before.reverse ++ t := by
  induction t with
  | nil => simp [findFrom]
  | cons c rest ih =>
    intro before m h
    rw [findFrom] at h
    split at h
    · cases h; simp
    · simpa using ih h

/-- The first hit stands in the text between what is before and what is after it. -/
theorem firstMatch?_eq_some {p : Pattern} {t : Text} {m : Match} (h : firstMatch? p t = some m) :
    m.before ++ m.covered ++ m.after = t := by
  simpa using findFrom_eq_some h

end Mend.Text
