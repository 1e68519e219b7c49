import Criteria.Operator

namespace Criteria

inductive Kind where
  | multiSelect | boolean | date | text
  deriving DecidableEq

namespace Kind

def all : List Kind := [.multiSelect, .boolean, .date, .text]

def tag : Kind → String
  | .multiSelect => "multi_select"
  | .boolean => "boolean"
  | .date => "date"
  | .text => "text"

def allowed : Kind → List Operator
  | .multiSelect => [.isIn, .notIn]
  | .boolean => [.equals]
  | .date => [.equals, .between]
  | .text => [.contains]

def supports (k : Kind) (o : Operator) : Bool := k.allowed.contains o

def tagged : List (String × Kind) := all.map fun k => (k.tag, k)

theorem mem_all (k : Kind) : k ∈ all := by cases k <;> decide

theorem tag_inj {k l : Kind} : k.tag = l.tag ↔ k = l := by
  constructor
  · cases k <;> cases l <;> decide
  · intro equal
    cases equal
    rfl

theorem supports_iff {k : Kind} {o : Operator} : k.supports o = true ↔ o ∈ k.allowed := by
  simp [supports]

end Kind
end Criteria
