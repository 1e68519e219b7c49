import Criteria.Proofs.Activity
import Criteria.Proofs.Verdicts

namespace Criteria

def omitted (catalog : Catalog) (conditions : List Condition) : List (Condition × Omission) :=
  conditions.filterMap fun c => (c.omission? catalog).map fun reason => (c, reason)

def Combinator.passing : Combinator → List Event
  | .custom s => [.customCombinatorSent s]
  | _ => []

def opening (catalog : Catalog) (conditions : List Condition) (combinator : Combinator) : List Event :=
  (criteria catalog conditions).events ++ if (collected catalog conditions).isEmpty then [] else combinator.passing

structure Report where
  level : Level
  message : String
  details : List (String × Detail)
  deriving DecidableEq

namespace Report

def passing : Combinator → List Report
  | .custom s => [⟨.debug, "Passing through non-standard logical operator", [("logical_operator", .text s)]⟩]
  | _ => []

def paramsCompiled (n : Nat) : Report := ⟨.trace, "Compiled filter params", [("params", .count n)]⟩

def queryCompiled (n : Nat) : Report := ⟨.trace, "Compiled filter query string", [("tokens", .count n)]⟩

end Report

end Criteria
