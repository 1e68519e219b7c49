import Criteria.Json.Tree

namespace Criteria

structure Period where
  start : String
  stop : String
  deriving DecidableEq

def Period.filled (p : Period) : Bool := !p.start.isEmpty && !p.stop.isEmpty

inductive Value where
  | absent
  | selection (ids : List String)
  | flag (b : Bool)
  | text (s : String)
  | period (p : Period)
  deriving DecidableEq

namespace Value

def isAbsent : Value → Bool
  | .absent => true
  | _ => false

def itemId? : Json → Option String
  | .string s => some s
  | .number n => some n.text
  | _ => none

-- An end of a period is blank where the object gives no string for it.
def periodEnd (members : List (String × Json)) (key : String) : String :=
  match Json.member? members key with
  | some (.string s) => s
  | _ => ""

-- Any JSON value stands for some value, but never for a part of what was sent.
def ofJson : Json → Value
  | .null => .absent
  | .bool b => .flag b
  | .number n => .text n.text
  | .string s => .text s
  | .array items =>
    match items.mapM itemId? with
    | some ids => .selection ids
    | none => .absent
  | .object members => .period ⟨periodEnd members "start", periodEnd members "end"⟩

def toJson : Value → Json
  | .absent => .null
  | .selection ids => .array (ids.map .string)
  | .flag b => .bool b
  | .text s => .string s
  | .period p => .object [("end", .string p.stop), ("start", .string p.start)]

theorem mapM_itemId?_string (ids : List String) : (ids.map Json.string).mapM itemId? = some ids := by
  induction ids with
  | nil => rfl
  | cons id ids ih =>
    rw [List.map_cons, List.mapM_cons, ih]
    rfl

theorem ofJson_toJson (v : Value) : ofJson v.toJson = v := by
  cases v with
  | selection ids =>
    rw [toJson, ofJson, mapM_itemId?_string]
  | _ => rfl

end Value
end Criteria
