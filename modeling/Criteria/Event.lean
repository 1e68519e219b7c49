import Criteria.Omission

namespace Criteria

inductive Level where
  | warn | debug | trace
  deriving DecidableEq

inductive Event where
  | catalogBuilt (fields : Nat)
  | omitted (condition field : String) (reason : Omission)
  | customCombinatorSent (combinator : String)
  | customCombinatorChosen (combinator : String)
  | paramsCompiled (params : Nat)
  | queryCompiled (tokens : Nat)
  deriving DecidableEq

inductive Detail where
  | text (s : String)
  | count (n : Nat)
  deriving DecidableEq

namespace Event

def level : Event → Level
  | .customCombinatorChosen _ => .warn
  | .paramsCompiled _ | .queryCompiled _ => .trace
  | _ => .debug

def message : Event → String
  | .catalogBuilt _ => "Field registry built"
  | .omitted .. => "Condition excluded"
  | .customCombinatorSent _ => "Passing through non-standard logical operator"
  | .customCombinatorChosen _ => "Non-standard logical operator will be passed through"
  | .paramsCompiled _ => "Compiled filter params"
  | .queryCompiled _ => "Compiled filter query string"

def details : Event → List (String × Detail)
  | .catalogBuilt n => [("fields", .count n)]
  | .omitted condition field reason =>
    [("condition_id", .text condition), ("field", .text field), ("reason", .text reason.message)]
  | .customCombinatorSent s | .customCombinatorChosen s => [("logical_operator", .text s)]
  | .paramsCompiled n => [("params", .count n)]
  | .queryCompiled n => [("tokens", .count n)]

end Event

structure Traced (α : Type) where
  value : α
  events : List Event

namespace Traced
variable {α β : Type}

instance : Monad Traced where
  pure a := ⟨a, []⟩
  bind x f := ⟨(f x.value).value, x.events ++ (f x.value).events⟩

def emit (e : Event) : Traced Unit := ⟨(), [e]⟩

@[simp] theorem value_pure (a : α) : (pure a : Traced α).value = a := rfl

@[simp] theorem events_pure (a : α) : (pure a : Traced α).events = [] := rfl

@[simp] theorem value_bind (x : Traced α) (f : α → Traced β) : (x >>= f).value = (f x.value).value := rfl

@[simp] theorem events_emit (e : Event) : (emit e).events = [e] := rfl

end Traced
end Criteria
