import Mend.Command.Arguments

/-!
# Requests

What the arguments of the program ask for: to run one of its commands, or to say what it is. Left
out: the words of the help and of what is said about arguments that cannot be understood.
-/

namespace Mend

/-- How to run sessions. -/
structure FixOptions where
  /-- Attempt risky repairs as well. -/
  unsafely : Bool := false
  /-- Write the results to the files. -/
  write : Bool := false
  /-- Write them without asking. -/
  yes : Bool := false
  /-- Show the results as JSON. -/
  json : Bool := false
  /-- Fail if a session has introduced critical issues. -/
  failOnRegression : Bool := false
  deriving DecidableEq, Repr

/-- What to undo. -/
structure UndoOptions where
  session : Option String := none
  /-- Undo the latest batch. -/
  last : Bool := false
  /-- Only list what can be undone. -/
  list : Bool := false
  deriving DecidableEq, Repr

/-- A command. -/
inductive Command
  /-- Show how the issues of files would be dealt with. -/
  | scan (files : List String)
  /-- Run a session for each file. -/
  | fix (options : FixOptions) (files : List String)
  /-- Show the strategies. -/
  | strategies
  /-- Show or forget what was learned. -/
  | learning (json reset : Bool)
  /-- Undo what sessions have written. -/
  | undo (options : UndoOptions)
  deriving DecidableEq, Repr

/-- What the arguments ask for. -/
inductive Request
  | help
  | version
  | run (c : Command)
  deriving DecidableEq, Repr

/-- What is found where an operand should lead to a file. -/
inductive Found
  | file
  | noFile
  /-- Nothing, since no file can have such a name. -/
  | noName
  deriving DecidableEq, Repr

/-- Why arguments are refused. -/
inductive Refusal
  /-- They cannot be understood. -/
  | misused
  /-- One of them cannot be looked for. -/
  | noName
  deriving DecidableEq, Repr

namespace Request

/-- The flag that asks for help. -/
def helpFlag : Flag := { name := "help" }

/-- The flags in front of the name of a command. -/
def leadingFlags : List Flag :=
  [{ name := "version" }, { name := "verbose", letter := some 'v' }, helpFlag]

/-- The flags of a command; nothing for an unknown command. -/
def flagsOf? : String → Option (List Flag)
  | "scan" => some [helpFlag]
  | "fix" => some [
      { name := "unsafe" }, { name := "write" }, { name := "yes", letter := some 'y' },
      { name := "json" }, { name := "fail-on-regression" }, helpFlag]
  | "strategies" => some [helpFlag]
  | "learning" => some [{ name := "json" }, { name := "reset" }, helpFlag]
  | "undo" => some [{ name := "last" }, { name := "list" }, helpFlag]
  | _ => none

/-- Why operands are not files; nothing if they are. There must be one at least, and the first of
them that is no file decides. -/
def filesRefusal? (look : String → Found) (operands : List String) : Option Refusal :=
  if operands.isEmpty then some .misused
  else
    match (operands.map look).find? (· ≠ .file) with
    | none => none
    | some .noName => some .noName
    | some _ => some .misused

/-- A command, unless there is a reason to refuse it. -/
def orRefused (refusal : Option Refusal) (c : Command) : Except Refusal Command :=
  match refusal with
  | some r => .error r
  | none => .ok c

/-- A command that takes no more operands than `most`. -/
def within (most : Nat) (a : Arguments) (c : Command) : Except Refusal Command :=
  if a.operands.length ≤ most then .ok c else .error .misused

/-- The command with a name and arguments. `look` tells what operands lead to. -/
def command (look : String → Found) (name : String) (a : Arguments) : Except Refusal Command :=
  match name with
  | "scan" => orRefused (filesRefusal? look a.operands) (.scan a.operands)
  | "fix" =>
    orRefused (filesRefusal? look a.operands) (.fix {
      unsafely := a.has "unsafe"
      write := a.has "write"
      yes := a.has "yes"
      json := a.has "json"
      failOnRegression := a.has "fail-on-regression" } a.operands)
  | "strategies" => within 0 a .strategies
  | "learning" => within 0 a (.learning (a.has "json") (a.has "reset"))
  | "undo" =>
    within 1 a (.undo { session := a.operands.head?, last := a.has "last", list := a.has "list" })
  | _ => .error .misused

/-- What a command and its arguments ask for. -/
def ofCommand (look : String → Found) (name : String) (args : List String) :
    Except Refusal Request :=
  match (flagsOf? name).bind (Arguments.mixed? · args) with
  | none => .error .misused
  | some a => if a.has helpFlag.name then .ok .help else (command look name a).map .run

/-- What a flag in front of the name of the command asks for. -/
def ofFlag? (flag : String) : Option Request :=
  if flag = "version" then some .version
  else if flag = helpFlag.name then some .help
  else none

/-- What arguments ask for. -/
def ofArguments (look : String → Found) (args : List String) : Except Refusal Request :=
  match Arguments.leading? leadingFlags args with
  | none => .error .misused
  | some a =>
    match a.flags.findSome? ofFlag? with
    | some r => .ok r
    | none =>
      match a.operands with
      | [] => .error .misused
      | name :: rest => ofCommand look name rest

end Request

end Mend
