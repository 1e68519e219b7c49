import Criteria.Json.Number
import Criteria.Json.Container

namespace Criteria.Json.Reader

def passScalar (c : Char) : Reader Unit :=
  if c = 'n' then word () 'n' ['u', 'l', 'l']
  else if c = 't' then word () 't' ['r', 'u', 'e']
  else if c = 'f' then word () 'f' ['a', 'l', 's', 'e']
  else if c = '"' then passString
  else if c = '-' || c.isDigit then passNumber
  else fail .expectedValue

-- What is passed over is read by its grammar alone: nested to any depth, with numbers of any size.
inductive Opening (s : List Char) where
  | whole (rest : Rest s)
  | items (rest : Rest s)
  | members (rest : Rest s)

def Opening.widen {s t : List Char} (h : s.length ≤ t.length) : Opening s → Opening t
  | .whole r => .whole (r.widen h)
  | .items r => .items (r.widen h)
  | .members r => .members (r.widen h)

def closing? (close : Char) (s : List Char) : Option (Rest s) :=
  match spaced (char .expectedValue .expectedValue close) s with
  | .error _ => none
  | .ok (_, r) => some r

def openingAt (s : List Char) : Except Fault (Opening s) :=
  match s with
  | [] => .error (.unfinished .value)
  | c :: r =>
    if c = '[' then
      if skipSpace r = [] then .error (.unfinished .list)
      else
        match closing? ']' r with
        | some t => .ok (.whole ((Rest.tail c r).trans t))
        | none => .ok (.items (.tail c r))
    else if c = '{' then
      match closing? '}' r with
      | some t => .ok (.whole ((Rest.tail c r).trans t))
      | none => .ok (.members (.tail c r))
    else
      match passScalar c (c :: r) with
      | .error fault => .error fault
      | .ok (_, t) => .ok (.whole t)

def opening (s : List Char) : Except Fault (Opening s) :=
  match openingAt (skipSpace s) with
  | .error fault => .error fault
  | .ok start => .ok (start.widen (length_skipSpace_le s))

def follow (close : Char) (cut other : Fault) : Reader Bool :=
  spaced fun s =>
    match s with
    | [] => .error cut
    | c :: r =>
      if c = close then .ok (false, .tail c r)
      else if c = ',' then .ok (true, .tail c r)
      else .error other

def keyStart : Reader Unit :=
  spaced fun s =>
    match s with
    | [] => .error (.unfinished .object)
    | c :: r => if c = '"' then passString (c :: r) else .error .keyNotString

def passKey : Reader Unit := keyStart.andThen fun _ => colon

mutual

def passValue (s : List Char) : Except Fault (Unit × Rest s) :=
  match opening s with
  | .error fault => .error fault
  | .ok (.whole r) => .ok ((), r)
  | .ok (.items r) =>
    match passItems r.1 with
    | .error fault => .error fault
    | .ok (_, t) => .ok ((), r.trans t)
  | .ok (.members r) =>
    match passMembers r.1 with
    | .error fault => .error fault
    | .ok (_, t) => .ok ((), r.trans t)
termination_by (s.length, 0)
decreasing_by all_goals exact Prod.Lex.left _ _ r.2

def passItems (s : List Char) : Except Fault (Unit × Rest s) :=
  match passValue s with
  | .error fault => .error fault
  | .ok (_, r) =>
    match follow ']' (.unfinished .list) .expectedCommaOrBracket r.1 with
    | .error fault => .error fault
    | .ok (false, t) => .ok ((), r.trans t)
    | .ok (true, t) =>
      match passItems t.1 with
      | .error fault => .error fault
      | .ok (_, u) => .ok ((), (r.trans t).trans u)
termination_by (s.length, 1)
decreasing_by
  · exact Prod.Lex.right _ Nat.zero_lt_one
  · exact Prod.Lex.left _ _ (r.trans t).2

def passMembers (s : List Char) : Except Fault (Unit × Rest s) :=
  match passKey s with
  | .error fault => .error fault
  | .ok (_, k) =>
    match passValue k.1 with
    | .error fault => .error fault
    | .ok (_, r) =>
      match follow '}' (.unfinished .object) .expectedCommaOrBrace r.1 with
      | .error fault => .error fault
      | .ok (false, t) => .ok ((), (k.trans r).trans t)
      | .ok (true, t) =>
        match passMembers t.1 with
        | .error fault => .error fault
        | .ok (_, u) => .ok ((), ((k.trans r).trans t).trans u)
termination_by (s.length, 1)
decreasing_by
  · exact Prod.Lex.left _ _ k.2
  · exact Prod.Lex.left _ _ ((k.trans r).trans t).2

end

end Criteria.Json.Reader
