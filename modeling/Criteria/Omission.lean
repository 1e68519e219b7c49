namespace Criteria

inductive Omission where
  | noField
  | unknownField
  | noOperator
  | illegalOperator
  | emptyValue
  | unfitValue
  deriving DecidableEq

def Omission.message : Omission → String
  | .noField => "no field selected"
  | .unknownField => "field is not registered"
  | .noOperator => "no operator selected"
  | .illegalOperator => "operator is not legal for the field"
  | .emptyValue => "value is empty"
  | .unfitValue => "value shape does not match the field and operator"

end Criteria
