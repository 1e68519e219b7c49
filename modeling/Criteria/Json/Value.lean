import Criteria.Json.Container
import Criteria.Json.Tree

namespace Criteria.Json

def room : Nat := 127

namespace Reader
variable {α : Type}

def scalar (c : Char) : Reader Json :=
  if c = 'n' then word .null 'n' ['u', 'l', 'l']
  else if c = 't' then word (.bool true) 't' ['r', 'u', 'e']
  else if c = 'f' then word (.bool false) 'f' ['a', 'l', 's', 'e']
  else if c = '"' then string.map .string
  else if c = '-' || c.isDigit then number.map .number
  else fail .expectedValue

def memberStep (value : Reader Json) (before : List (String × Json)) (key : String) :
    Except Fault (Reader (List (String × Json))) :=
  .ok (value.map fun v => (key, v) :: before)

def value : Nat → Reader Json
  | 0 => choose fun c => if c = '[' ∨ c = '{' then fail .tooDeep else scalar c
  | room + 1 =>
    choose fun c =>
      if c = '[' then (array (value room)).map .array
      else if c = '{' then (object (memberStep (value room)) []).map fun ms => .object ms.reverse
      else scalar c

def nested (room : Nat) (p : Nat → Reader α) : Reader α :=
  match room with
  | 0 => fail .tooDeep
  | room + 1 => p room

-- What stands at `c` is not what is wanted: a scalar is read first, a container is not entered.
def mismatch (wanted : String) (c : Char) : Reader α :=
  if c = '[' then fail (.wrongType .sequence wanted)
  else if c = '{' then fail (.wrongType .map wanted)
  else (scalar c).check fun v => .error (.wrongType v.found wanted)

def text : Reader String :=
  choose fun c => if c = '"' then string else mismatch "a string" c

def textOrNull : Reader (Option String) :=
  choose fun c => if c = 'n' then word none 'n' ['u', 'l', 'l'] else text.map some

def sequence (item : Nat → Reader α) (room : Nat) : Reader (List α) :=
  choose fun c => if c = '[' then nested room fun room => array (item room) else mismatch "a sequence" c

end Reader
end Criteria.Json
