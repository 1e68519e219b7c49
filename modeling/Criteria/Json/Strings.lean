import Criteria.Json.Reader
import Criteria.Text.Hex

namespace Criteria.Json.Reader

def past {α : Type} (p : Reader α) (c : Char) (r : List Char) : Except Fault (α × Rest (c :: r)) :=
  match p r with
  | .error fault => .error fault
  | .ok (a, t) => .ok (a, (Rest.tail c r).trans t)

-- Four digits, in a text that has at least four more bytes.
def fourDigits : Reader Nat := fun s =>
  match s with
  | a :: b :: c :: d :: r =>
    match Text.hexValue? a, Text.hexValue? b, Text.hexValue? c, Text.hexValue? d with
    | some k, some l, some m, some n =>
      .ok (((k * 16 + l) * 16 + m) * 16 + n, ⟨r, by simp only [List.length_cons]; omega⟩)
    | _, _, _, _ => .error .invalidEscape
  | short =>
    if (String.ofList short).utf8ByteSize < 4 then .error (.unfinished .string) else .error .invalidEscape

def isTrailing (n : Nat) : Bool := 0xDC00 ≤ n && n ≤ 0xDFFF

def isLeading (n : Nat) : Bool := 0xD800 ≤ n && n ≤ 0xDBFF

def joinPair (lead trail : Nat) : Char := .ofNat (0x10000 + (lead - 0xD800) * 0x400 + (trail - 0xDC00))

def trailing (lead : Nat) : Reader Char :=
  (char (.unfinished .string) .unpairedSurrogate '\\').andThen fun _ =>
    (char (.unfinished .string) .unpairedSurrogate 'u').andThen fun _ =>
      fourDigits.check fun n => if isTrailing n then .ok (joinPair lead n) else .error .loneSurrogate

def numbered : Reader Char := fun s =>
  match fourDigits s with
  | .error fault => .error fault
  | .ok (n, r) =>
    if isTrailing n then .error .loneSurrogate
    else if isLeading n then
      match trailing n r.1 with
      | .error fault => .error fault
      | .ok (c, t) => .ok (c, r.trans t)
    else .ok (.ofNat n, r)

def named? : Char → Option Char
  | '"' => some '"'
  | '\\' => some '\\'
  | '/' => some '/'
  | 'b' => some '\x08'
  | 'f' => some '\x0c'
  | 'n' => some '\n'
  | 'r' => some '\r'
  | 't' => some '\t'
  | _ => none

def escape (code : Reader Char) : Reader Char := fun s =>
  match s with
  | [] => .error (.unfinished .string)
  | c :: r =>
    match named? c with
    | some d => .ok (d, .tail c r)
    | none => if c = 'u' then past code c r else .error .invalidEscape

def piece (code : Reader Char) : Reader Char := fun s =>
  match s with
  | [] => .error (.unfinished .string)
  | c :: r =>
    if c = '\\' then past (escape code) c r
    else if c.toNat < 0x20 then .error .controlCharacter
    else .ok (c, .tail c r)

def body (code : Reader Char) (s : List Char) : Except Fault (List Char × Rest s) :=
  match s with
  | [] => .error (.unfinished .string)
  | c :: r =>
    if c = '"' then .ok ([], .tail c r)
    else
      match piece code (c :: r) with
      | .error fault => .error fault
      | .ok (d, t) =>
        match body code t.1 with
        | .error fault => .error fault
        | .ok (ds, u) => .ok (d :: ds, t.trans u)
termination_by s.length
decreasing_by exact t.2

def string : Reader String :=
  (char (.unfinished .value) .expectedValue '"').andThen fun _ => map .ofList (body numbered)

def passString : Reader Unit :=
  (char (.unfinished .value) .expectedValue '"').andThen fun _ =>
    map (fun _ => ()) (body (map (fun _ => ' ') fourDigits))

end Criteria.Json.Reader

namespace Criteria.Json

def writeChar (c : Char) : List Char :=
  if c = '"' then ['\\', '"']
  else if c = '\\' then ['\\', '\\']
  else if c = '\x08' then ['\\', 'b']
  else if c = '\x0c' then ['\\', 'f']
  else if c = '\n' then ['\\', 'n']
  else if c = '\r' then ['\\', 'r']
  else if c = '\t' then ['\\', 't']
  else if c.toNat < 0x20 then
    ['\\', 'u', '0', '0', Text.lowerHex (c.toNat / 16), Text.lowerHex (c.toNat % 16)]
  else [c]

def writeString (s : String) : List Char := '"' :: s.toList.flatMap writeChar ++ ['"']

end Criteria.Json
