import Mend.Idiom.Control
import Mend.Idiom.Quantum
import Mend.Issue
import Std.Data.HashMap

/-!
# Metrics of a whole file
-/

namespace Mend

open Text

/-- Numbers that describe a file as a whole. -/
structure Metrics where
  linesOfCode : Int := 0
  complexity : Int := 1
  maintainability : Int := 100
  duplicatedLines : Int := 0
  quality : Int := 100
  quantumFeatures : Int := 0
  deriving DecidableEq, Repr

namespace Metrics

/-- One more than the number of branching keywords and operators. -/
def cyclomaticComplexity (t : Text) : Nat :=
  1 + hitCount Idiom.branchKeyword t + hitCount Idiom.branchOperator t

/-- Whether a trimmed line starts a line comment. -/
def isLineComment (line : Text) : Bool := ['/', '/'].isPrefixOf line

/-- Whether a line counts as code: it is not blank and starts neither a line comment nor a line of
a block comment. -/
def isCode (line : Text) : Bool :=
  let line := trim line
  !line.isEmpty && !isLineComment line && line.head? != some '*'

/-- How often each line was seen, and how many duplicates that makes. -/
structure Repetition where
  seen : Std.HashMap String Nat := {}
  duplicated : Nat := 0

/-- Takes one more line into account. The first repetition of a line counts for both copies. -/
def Repetition.add (r : Repetition) (line : Text) : Repetition :=
  let line := trim line
  if line.isEmpty || isLineComment line then r
  else
    let key := String.ofList line
    let before := r.seen.getD key 0
    { seen := r.seen.insert key (before + 1)
      duplicated := r.duplicated + (if before = 0 then 0 else if before = 1 then 2 else 1) }

/-- The number of lines, blank ones and line comments aside, that occur more than once. -/
def duplicates (ls : List Text) : Nat := (ls.foldl Repetition.add {}).duplicated

/-- What is deducted from the quality for every issue. -/
def issueDeduction : Nat := 2

/-- What is deducted from the quality for every critical issue besides. -/
def criticalDeduction : Nat := 10

/-- A hundred less the deductions, and never below 0. -/
def qualityOf (issues : List Issue) : Nat :=
  100 - (issueDeduction * issues.length + criticalDeduction * Issue.criticalCount issues)

/-- The metrics of a text in which these issues were found. -/
def compute (t : Text) (issues : List Issue) : Metrics :=
  let ls := lines t
  let complexity := cyclomaticComplexity t
  let duplicated := duplicates ls
  { linesOfCode := ls.countP isCode
    complexity := complexity
    maintainability := (100 - (complexity + duplicated) : Nat)
    duplicatedLines := duplicated
    quality := qualityOf issues
    quantumFeatures := hitCount Idiom.quantumFeature t }

end Metrics

end Mend
