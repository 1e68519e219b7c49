import Criteria.Kind

namespace Criteria

structure Field where
  id : String
  label : String
  kind : Kind
  operators : List Operator
  deriving DecidableEq

def Field.accepts (f : Field) (o : Operator) : Bool := f.operators.contains o

structure Field.Sound (f : Field) : Prop where
  offers : f.operators ≠ []
  supported : ∀ o ∈ f.operators, f.kind.supports o = true
  distinct : f.operators.Nodup

theorem Field.accepts_iff {f : Field} {o : Operator} : f.accepts o = true ↔ o ∈ f.operators := by
  simp [accepts]

end Criteria
