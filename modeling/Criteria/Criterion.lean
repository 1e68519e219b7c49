import Criteria.Catalog
import Criteria.Condition
import Criteria.Text.Blank

namespace Criteria

-- Each form fixes its operator and holds a value that fits it, so that nothing half-entered can be said with one.
inductive Demand where
  | anyOf (ids : List String)
  | noneOf (ids : List String)
  | flag (b : Bool)
  | onDate (date : String)
  | between (start stop : String)
  | contains (text : String)
  deriving DecidableEq

def Demand.operator : Demand → Operator
  | .anyOf _ => .isIn
  | .noneOf _ => .notIn
  | .flag _ => .equals
  | .onDate _ => .equals
  | .between .. => .between
  | .contains _ => .contains

structure Criterion where
  id : String
  field : String
  demand : Demand
  deriving DecidableEq

namespace Demand

def ofSelection (make : List String → Demand) (ids : List String) : Except Omission Demand :=
  if ids = [] then .error .emptyValue else .ok (make ids)

def ofPeriod (start stop : String) : Except Omission Demand :=
  if start = "" ∨ stop = "" then .error .emptyValue else .ok (.between start stop)

def ofDate (date : String) : Except Omission Demand :=
  if date = "" then .error .emptyValue else .ok (.onDate date)

def ofText (s : String) : Except Omission Demand :=
  let trimmed := Text.trim s
  if trimmed = "" then .error .emptyValue else .ok (.contains trimmed)

-- An empty selection on a field of several choices is empty before it is unfit. A pair of dates is a period
-- too, and fewer than two dates are a period that is not there yet. The answer no is an answer.
def ofValue : Kind → Operator → Value → Except Omission Demand
  | _, _, .absent => .error .emptyValue
  | .multiSelect, .isIn, .selection ids => ofSelection .anyOf ids
  | .multiSelect, .notIn, .selection ids => ofSelection .noneOf ids
  | .multiSelect, _, .selection [] => .error .emptyValue
  | .boolean, .equals, .flag b => .ok (.flag b)
  | .date, .equals, .text date => ofDate date
  | .date, .between, .period p => ofPeriod p.start p.stop
  | .date, .between, .selection [start, stop] => ofPeriod start stop
  | .date, .between, .selection [] => .error .emptyValue
  | .date, .between, .selection [_] => .error .emptyValue
  | .text, .contains, .text s => ofText s
  | _, _, _ => .error .unfitValue

end Demand

namespace Condition

def complete (catalog : Catalog) (c : Condition) : Except Omission Criterion :=
  match c.field with
  | none => .error .noField
  | some id =>
    match catalog.find? id with
    | none => .error .unknownField
    | some field =>
      match c.operator with
      | none => .error .noOperator
      | some operator =>
        if field.accepts operator then
          (Demand.ofValue field.kind operator c.value).map fun demand => ⟨c.id, id, demand⟩
        else .error .illegalOperator

def isComplete (catalog : Catalog) (c : Condition) : Bool := (c.complete catalog).isOk

end Condition

def criteria (catalog : Catalog) : List Condition → Traced (List Criterion)
  | [] => pure []
  | c :: cs =>
    match c.complete catalog with
    | .ok criterion => do
      let rest ← criteria catalog cs
      pure (criterion :: rest)
    | .error reason => do
      .emit (.omitted c.id (c.field.getD "") reason)
      criteria catalog cs

namespace Demand

theorem ofSelection_eq_ok_iff {make : List String → Demand} {ids : List String} {d : Demand} :
    ofSelection make ids = .ok d ↔ ids ≠ [] ∧ make ids = d := by
  by_cases h : ids = [] <;> simp [ofSelection, h]

theorem ofPeriod_eq_ok_iff {start stop : String} {d : Demand} :
    ofPeriod start stop = .ok d ↔ start ≠ "" ∧ stop ≠ "" ∧ between start stop = d := by
  by_cases h : start = "" <;> by_cases k : stop = "" <;> simp [ofPeriod, h, k]

theorem ofDate_eq_ok_iff {date : String} {d : Demand} : ofDate date = .ok d ↔ date ≠ "" ∧ onDate date = d := by
  by_cases h : date = "" <;> simp [ofDate, h]

theorem ofText_eq_ok_iff {s : String} {d : Demand} :
    ofText s = .ok d ↔ Text.trim s ≠ "" ∧ contains (Text.trim s) = d := by
  by_cases h : Text.trim s = "" <;> simp [ofText, h]

theorem operator_ofValue {k : Kind} {o : Operator} {v : Value} {d : Demand} (h : ofValue k o v = .ok d) :
    d.operator = o := by
  revert h
  fun_cases ofValue k o v <;>
    grind [operator, ofSelection_eq_ok_iff, ofPeriod_eq_ok_iff, ofDate_eq_ok_iff, ofText_eq_ok_iff]

end Demand

theorem criteria_value (catalog : Catalog) (cs : List Condition) :
    (criteria catalog cs).value = cs.filterMap fun c => (c.complete catalog).toOption := by
  induction cs with
  | nil => rfl
  | cons c cs ih =>
    unfold criteria
    cases h : c.complete catalog <;> simp [h, ih, Except.toOption]

end Criteria
