import Criteria.Combinator
import Criteria.Criterion
import Criteria.OrderedMap

namespace Criteria

inductive Param where
  | list (ids : List String)
  | flag (b : Bool)
  | text (s : String)
  deriving DecidableEq

namespace Param

def text? : Param → Option String
  | .text s => some s
  | _ => none

def flag? : Param → Option Bool
  | .flag b => some b
  | _ => none

def list? : Param → Option (List String)
  | .list ids => some ids
  | _ => none

def toJson : Param → Json
  | .list ids => .array (ids.map .string)
  | .flag b => .bool b
  | .text s => .string s

end Param

abbrev Params := OrderedMap Param

-- What an entry holds. The tag of an operator is not mixed with text that somebody entered.
inductive Content where
  | list (ids : List String)
  | flag (b : Bool)
  | text (s : String)
  | tag (o : Operator)
  deriving DecidableEq

def Content.param : Content → Param
  | .list ids => .list ids
  | .flag b => .flag b
  | .text s => .text s
  | .tag o => .text o.tag

abbrev Contents := OrderedMap Content

inductive Aspect where
  | value | start | stop | operator
  deriving DecidableEq

def Aspect.ending : Aspect → String
  | .value => ""
  | .start => "_start"
  | .stop => "_end"
  | .operator => "_operator"

def entryKey (field : String) (aspect : Aspect) : String := field ++ aspect.ending

def Demand.aspects : Demand → List (Aspect × Content)
  | .anyOf ids => [(.value, .list ids)]
  | .noneOf ids => [(.value, .list ids)]
  | .flag b => [(.value, .flag b)]
  | .onDate date => [(.value, .text date)]
  | .between start stop => [(.start, .text start), (.stop, .text stop)]
  | .contains text => [(.value, .text text)]

def Criterion.aspects (c : Criterion) : List (Aspect × Content) :=
  c.demand.aspects ++ [(.operator, .tag c.demand.operator)]

def Criterion.entries (c : Criterion) : List (String × Content) :=
  c.aspects.map fun e => (entryKey c.field e.1, e.2)

def Contents.merge (criteria : List Criterion) : Contents := .ofList (criteria.flatMap Criterion.entries)

def combinatorKey : String := "logical_operator"

def Combinator.reportSent : Combinator → Traced Unit
  | .custom s => .emit (.customCombinatorSent s)
  | _ => pure ()

namespace Params

-- The combinator goes where its key stands already, or to the end.
def withCombinator (params : Params) (combinator : Combinator) : Params :=
  if params.isEmpty then params else params.insert combinatorKey (.text combinator.text)

def compile (catalog : Catalog) (conditions : List Condition) (combinator : Combinator) : Traced Params := do
  let found ← criteria catalog conditions
  let merged := (Contents.merge found).map Content.param
  if !merged.isEmpty then combinator.reportSent
  let params := withCombinator merged combinator
  .emit (.paramsCompiled params.size)
  pure params

def combinator? (params : Params) : Option String := (params.get? combinatorKey).bind Param.text?

def members (params : Params) : List (String × Json) := params.entries.map fun e => (e.1, e.2.toJson)

def toJson (params : Params) : Json := .object params.members

-- In the order of the keys, by code points.
def toSortedJson (params : Params) : Json := .object (params.members.mergeSort fun a b => decide (a.1 ≤ b.1))

end Params
end Criteria
