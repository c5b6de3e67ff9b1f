import Mend.Strategy

/-!
# The registry of strategies

Strategies are registered one after the other, each under an identifier of its own, and are found
by the rules of the issues they repair. A strategy that is refused leaves the registry as it was.
-/

namespace Mend

/-- Why a strategy is refused. -/
inductive RegistryError
  | alreadyRegistered (id : String)
  | confidenceOutOfRange (id : String)
  deriving DecidableEq, Repr

/-- The words for why a strategy is refused. -/
def RegistryError.message : RegistryError → String
  | alreadyRegistered id => "Strategy " ++ Text.quoted id ++ " is already registered"
  | confidenceOutOfRange id =>
    "Strategy " ++ Text.quoted id ++ " confidence must be within [0, 1]"

/-- The registered strategies in order, and for every rule those that repair its issues. -/
structure Registry (κ : Type) where
  strategies : List (Strategy κ) := []
  byRule : List (String × List (Strategy κ)) := []

namespace Registry

variable {κ : Type}

/-- A registry without strategies. -/
def empty : Registry κ := {}

/-- The strategy with that identifier. -/
def get? (r : Registry κ) (id : String) : Option (Strategy κ) := r.strategies.find? (·.id == id)

/-- Whether a strategy with that identifier is registered. -/
def contains (r : Registry κ) (id : String) : Bool := r.strategies.any (·.id == id)

/-- The number of strategies. -/
def size (r : Registry κ) : Nat := r.strategies.length

/-- The strategies for a rule, in the order of their registration. A strategy that names the rule
several times is listed as often. -/
def forRule (r : Registry κ) (rule : String) : List (Strategy κ) :=
  (r.byRule.lookup rule).getD []

/-- The rules for which there are strategies, in the order in which they were first named. -/
def rules (r : Registry κ) : List String := r.byRule.map (·.1)

/-- Puts a strategy behind those already listed for a rule. -/
def index (s : Strategy κ) (rule : String) :
    List (String × List (Strategy κ)) → List (String × List (Strategy κ))
  | [] => [(rule, [s])]
  | (name, listed) :: rest =>
    if name = rule then (name, listed ++ [s]) :: rest else (name, listed) :: index s rule rest

/-- Registers a strategy, if its identifier is new and its confidence lies between 0 and 1. -/
def register [Confidence κ] (r : Registry κ) (s : Strategy κ) : Except RegistryError (Registry κ) :=
  if r.contains s.id then .error (.alreadyRegistered s.id)
  else if 0.0 ≤ s.confidence ∧ s.confidence ≤ 1.0 then .ok {
    strategies := r.strategies ++ [s]
    byRule := s.rules.foldl (fun listed rule => index s rule listed) r.byRule }
  else .error (.confidenceOutOfRange s.id)

/-- Registers strategies one after the other, up to the first that is refused. -/
def ofList? [Confidence κ] (ss : List (Strategy κ)) : Except RegistryError (Registry κ) :=
  ss.foldlM register empty

end Registry

end Mend
