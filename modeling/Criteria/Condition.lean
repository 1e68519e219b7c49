import Criteria.Operator
import Criteria.Value

namespace Criteria

structure Condition where
  id : String
  field : Option String
  operator : Option Operator
  value : Value
  deriving DecidableEq

inductive Change where
  | field (f : Option String)
  | operator (o : Option Operator)
  | value (v : Value)
  | rename (id : String)
  deriving DecidableEq

namespace Condition

def blank (id : String) : Condition := ⟨id, none, none, .absent⟩

-- An operator means nothing without the field it was chosen for, and a value nothing without its operator.
def apply (c : Condition) : Change → Condition
  | .field f => { c with field := f, operator := none, value := .absent }
  | .operator o => { c with operator := o, value := .absent }
  | .value v => { c with value := v }
  | .rename id => { c with id := id }

@[simp] theorem id_apply_field (c : Condition) (f : Option String) : (c.apply (.field f)).id = c.id := rfl

@[simp] theorem id_apply_operator (c : Condition) (o : Option Operator) : (c.apply (.operator o)).id = c.id := rfl

@[simp] theorem id_apply_value (c : Condition) (v : Value) : (c.apply (.value v)).id = c.id := rfl

@[simp] theorem id_apply_rename (c : Condition) (id : String) : (c.apply (.rename id)).id = id := rfl

end Condition
end Criteria
