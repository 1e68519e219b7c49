import Criteria.Encoding

namespace Criteria

inductive Edit where
  | change (c : Change)
  | operatorTag (tag : String)
  | valueText (json : String)
  deriving DecidableEq

def Edit.change? : Edit → Except Error Change
  | .change c => .ok c
  | .operatorTag tag => (Operator.parse tag).map fun o => .operator (some o)
  | .valueText json => (Value.decode json).map .value

namespace Condition

def edit (c : Condition) (e : Edit) : Except Error Condition := e.change?.map c.apply

-- The condition behind an edit, whether it failed or not.
def edited (c : Condition) (e : Edit) : Condition :=
  match c.edit e with
  | .ok d => d
  | .error _ => c

def editedAll (c : Condition) (es : List Edit) : Condition := es.foldl edited c

theorem editedAll_append (c : Condition) (xs ys : List Edit) :
    c.editedAll (xs ++ ys) = (c.editedAll xs).editedAll ys := List.foldl_append

theorem edited_of_error {c : Condition} {e : Edit} {err : Error} (h : e.change? = .error err) : c.edited e = c := by
  simp [edited, edit, h, Except.map]

theorem edited_of_ok {c : Condition} {e : Edit} {change : Change} (h : e.change? = .ok change) :
    c.edited e = c.apply change := by
  simp [edited, edit, h, Except.map]

end Condition
end Criteria
