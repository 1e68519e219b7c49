namespace Criteria

inductive Operator where
  | isIn | notIn | equals | between | contains
  deriving DecidableEq

namespace Operator

def all : List Operator := [.isIn, .notIn, .equals, .between, .contains]

def tag : Operator → String
  | .isIn => "in"
  | .notIn => "not_in"
  | .equals => "eq"
  | .between => "between"
  | .contains => "contains"

def ofTag? (s : String) : Option Operator := all.find? (·.tag == s)

def position (o : Operator) : Nat := all.idxOf o

def tagged : List (String × Operator) := all.map fun o => (o.tag, o)

theorem mem_all (o : Operator) : o ∈ all := by cases o <;> decide

theorem tag_inj {o p : Operator} : o.tag = p.tag ↔ o = p := by
  constructor
  · cases o <;> cases p <;> decide
  · intro equal
    cases equal
    rfl

theorem ofTag?_tag (o : Operator) : ofTag? o.tag = some o := by cases o <;> rfl

theorem ofTag?_eq_some_iff {s : String} {o : Operator} : ofTag? s = some o ↔ s = o.tag := by
  constructor
  · intro h
    have := List.find?_some h
    exact (beq_iff_eq.mp this).symm
  · intro equal
    cases equal
    exact ofTag?_tag o

end Operator
end Criteria
