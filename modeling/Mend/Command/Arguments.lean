/-!
# Arguments

The arguments of a command are flags and operands, in any order. A flag is written by its name
behind two dashes, or by its letter behind one; letters may be written together. Behind two dashes
alone everything is an operand.
-/

namespace Mend

/-- A flag: its name, and its letter if it has one. -/
structure Flag where
  name : String
  letter : Option Char := none
  deriving DecidableEq, Repr

/-- Arguments that were read: the names of the flags, and the operands, each in their order. -/
structure Arguments where
  flags : List String := []
  operands : List String := []
  deriving DecidableEq, Repr

namespace Arguments

/-- Whether a flag is set. -/
def has (a : Arguments) (flag : String) : Bool := a.flags.contains flag

/-- Whether an argument writes flags. A dash alone is an operand. -/
def isFlag (arg : String) : Bool :=
  match arg.toList with
  | '-' :: _ :: _ => true
  | _ => false

/-- The name of the flag with that letter. -/
def ofLetter? (known : List Flag) (c : Char) : Option String :=
  (known.find? (·.letter == some c)).map (·.name)

/-- The names of the flags that an argument writes, if all of them are known. -/
def flagsOf? (known : List Flag) (arg : String) : Option (List String) :=
  match arg.toList with
  | '-' :: '-' :: name =>
    (known.find? (·.name == String.ofList name)).map fun flag => [flag.name]
  | '-' :: letters => letters.mapM (ofLetter? known)
  | _ => none

/-- Reads arguments up to the first operand, with which everything is left that stands behind it. An
unknown flag is refused. -/
def leading? (known : List Flag) : List String → Option Arguments
  | [] => some {}
  | arg :: rest =>
    if arg = "--" then some { operands := rest }
    else if isFlag arg then
      match flagsOf? known arg, leading? known rest with
      | some names, some a => some { a with flags := names ++ a.flags }
      | _, _ => none
    else some { operands := arg :: rest }

/-- Reads arguments in any order. An unknown flag is refused. -/
def mixed? (known : List Flag) : List String → Option Arguments
  | [] => some {}
  | arg :: rest =>
    if arg = "--" then some { operands := rest }
    else
      match mixed? known rest with
      | none => none
      | some a =>
        if isFlag arg then
          (flagsOf? known arg).map fun names => { a with flags := names ++ a.flags }
        else some { a with operands := arg :: a.operands }

end Arguments

end Mend
