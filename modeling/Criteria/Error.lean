import Criteria.Json.Fault
import Criteria.Kind

namespace Criteria

inductive Error where
  | duplicateField (id : String)
  | noOperators (id : String)
  | unsupportedOperator (id : String) (operator : Operator) (kind : Kind)
  | repeatedOperator (id : String) (operator : Operator)
  | unknownOperator (tag : String)
  | malformed (fault : Json.Fault)
  | duplicateCondition (id : String)
  | conditionNotFound (id : String)
  deriving DecidableEq

def Error.message : Error → String
  | .duplicateField id => "Duplicate field: " ++ id
  | .noOperators id => "Field declares no operators: " ++ id
  | .unsupportedOperator id operator kind =>
    "Operator " ++ operator.tag ++ " is not supported by " ++ kind.tag ++ " field " ++ id
  | .repeatedOperator id operator => "Operator " ++ operator.tag ++ " declared twice for field " ++ id
  | .unknownOperator tag => "Unknown operator: " ++ tag
  | .malformed fault => "Deserialization error: " ++ fault.message
  | .duplicateCondition id => "Duplicate condition id: " ++ id
  | .conditionNotFound id => "Condition not found: " ++ id

def Operator.parse (tag : String) : Except Error Operator :=
  match ofTag? tag with
  | some o => .ok o
  | none => .error (.unknownOperator tag)

theorem Operator.parse_eq_ok_iff {tag : String} {o : Operator} : parse tag = .ok o ↔ tag = o.tag := by
  rw [← ofTag?_eq_some_iff]
  unfold parse
  cases ofTag? tag <;> simp

theorem Operator.parse_eq_error_iff {tag : String} {e : Error} :
    parse tag = .error e ↔ (∀ o : Operator, tag ≠ o.tag) ∧ e = .unknownOperator tag := by
  unfold parse
  cases h : ofTag? tag with
  | none =>
    simp only [Except.error.injEq]
    constructor
    · intro equal
      cases equal
      exact ⟨fun o k => by simp [k, ofTag?_tag] at h, rfl⟩
    · exact fun k => k.2.symm
  | some o =>
    constructor
    · intro k
      cases k
    · exact fun k => absurd (ofTag?_eq_some_iff.mp h) (k.1 o)

end Criteria
