import Criteria.Json.Strings

namespace Criteria.Json.Reader
variable {α σ : Type}

inductive Item (s : List Char) where
  | stop (rest : Rest s)
  | next (text : Remainder s)

def Item.widen {s t : List Char} (h : s.length ≤ t.length) : Item s → Item t
  | .stop r => .stop (r.widen h)
  | .next r => .next ⟨r.1, Nat.le_trans r.2 h⟩

def itemAt (first : Bool) (s : List Char) : Except Fault (Item s) :=
  match s with
  | [] => .error (.unfinished .list)
  | c :: r =>
    if c = ']' then .ok (.stop (.tail c r))
    else if first then .ok (.next (Remainder.all _))
    else if c = ',' then
      match (skipSpace r).head? with
      | none => .error (.unfinished .value)
      | some d =>
        if d = ']' then .error .trailingComma
        else .ok (.next ⟨skipSpace r, Nat.le_succ_of_le (length_skipSpace_le r)⟩)
    else .error .expectedCommaOrBracket

def nextItem (first : Bool) (s : List Char) : Except Fault (Item s) :=
  match itemAt first (skipSpace s) with
  | .error fault => .error fault
  | .ok item => .ok (item.widen (length_skipSpace_le s))

def items (item : Reader α) (first : Bool) (s : List Char) : Except Fault (List α × Rest s) :=
  match nextItem first s with
  | .error fault => .error fault
  | .ok (.stop r) => .ok ([], r)
  | .ok (.next t) =>
    match item t.1 with
    | .error fault => .error fault
    | .ok (a, r) =>
      match items item false r.1 with
      | .error fault => .error fault
      | .ok (as, u) => .ok (a :: as, (r.trans u).widen t.2)
termination_by s.length
decreasing_by exact Nat.lt_of_lt_of_le r.2 t.2

def array (item : Reader α) : Reader (List α) :=
  (char (.unfinished .value) .expectedValue '[').andThen fun _ => items item true

inductive Member (s : List Char) where
  | stop (rest : Rest s)
  | next (key : String) (rest : Rest s)

def Member.widen {s t : List Char} (h : s.length ≤ t.length) : Member s → Member t
  | .stop r => .stop (r.widen h)
  | .next key r => .next key (r.widen h)

def keyAt (close : Fault) (s : List Char) : Except Fault (Member s) :=
  match s.head? with
  | none => .error (.unfinished .value)
  | some c =>
    if c = '"' then
      match string s with
      | .error fault => .error fault
      | .ok (key, r) => .ok (.next key r)
    else if c = '}' then .error close
    else .error .keyNotString

def memberAt (first : Bool) (s : List Char) : Except Fault (Member s) :=
  match s with
  | [] => .error (.unfinished .object)
  | c :: r =>
    if c = '}' then .ok (.stop (.tail c r))
    else if first then keyAt .keyNotString (c :: r)
    else if c = ',' then
      match keyAt .trailingComma (skipSpace r) with
      | .error fault => .error fault
      | .ok member => .ok (member.widen (Nat.le_succ_of_le (length_skipSpace_le r)))
    else .error .expectedCommaOrBrace

def nextMember (first : Bool) (s : List Char) : Except Fault (Member s) :=
  match memberAt first (skipSpace s) with
  | .error fault => .error fault
  | .ok member => .ok (member.widen (length_skipSpace_le s))

def colon : Reader Unit := spaced (char (.unfinished .object) .expectedColon ':')

-- A key that `step` refuses is refused before its colon is looked for.
def members (step : σ → String → Except Fault (Reader σ)) (first : Bool) (state : σ) (s : List Char) :
    Except Fault (σ × Rest s) :=
  match nextMember first s with
  | .error fault => .error fault
  | .ok (.stop r) => .ok (state, r)
  | .ok (.next key r) =>
    match step state key with
    | .error fault => .error fault
    | .ok value =>
      match (colon.andThen fun _ => value) r.1 with
      | .error fault => .error fault
      | .ok (state', t) =>
        match members step false state' t.1 with
        | .error fault => .error fault
        | .ok (final, u) => .ok (final, (r.trans t).trans u)
termination_by s.length
decreasing_by exact (r.trans t).2

def object (step : σ → String → Except Fault (Reader σ)) (start : σ) : Reader σ :=
  (char (.unfinished .value) .expectedValue '{').andThen fun _ => members step true start

end Criteria.Json.Reader
