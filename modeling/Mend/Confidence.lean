/-!
# Confidences

A confidence says how likely a strategy is to succeed. Programs run on doubles; laws that rounding
would break are stated on exact rational numbers. Everything that computes with confidences works
for both.
-/

namespace Mend

/-- The numbers that confidences are made of. -/
class Confidence (κ : Type) extends
    Add κ, Mul κ, Div κ, Neg κ, LE κ, LT κ, BEq κ, OfScientific κ where
  decLe : DecidableLE κ
  decLt : DecidableLT κ

namespace Confidence

instance {κ : Type} [c : Confidence κ] : DecidableLE κ := c.decLe

instance {κ : Type} [c : Confidence κ] : DecidableLT κ := c.decLt

instance : Confidence Float where
  decLe := inferInstance
  decLt := inferInstance

instance : Confidence Rat where
  decLe := inferInstance
  decLt := inferInstance

end Confidence

/-- How much a strategy changes. -/
inductive Complexity
  | simple
  | medium
  | complex
  deriving DecidableEq, Repr

namespace Complexity

/-- All complexities. -/
def all : List Complexity := [simple, medium, complex]

/-- The word for a complexity. -/
def name : Complexity → String
  | simple => "simple"
  | medium => "medium"
  | complex => "complex"

/-- The complexity of that name. -/
def ofName? (s : String) : Option Complexity := all.find? (·.name == s)

/-- The share of its confidence that counts for a strategy of this complexity. -/
def weight {κ : Type} [Confidence κ] : Complexity → κ
  | simple => 1.0
  | medium => 0.8
  | complex => 0.5

end Complexity

end Mend
