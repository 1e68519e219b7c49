import Criteria.Decimal.Style
import Criteria.Json.Strings

namespace Criteria.Json

inductive Number where
  | integer (n : Int)
  | real (x : Float)

-- Doubles from 10 ^ -5 up to 10 ^ 16 are written positionally.
def style : Decimal.Style := ⟨-5, 15⟩

def realText (bits : UInt64) : List Char :=
  let sign := if bits.toNat < Nat.pow 2 63 then [] else ['-']
  let magnitude := Decimal.Binary.ofBits bits
  if magnitude.significand = 0 then sign ++ ['0', '.', '0']
  else sign ++ (Decimal.shortest magnitude).chars style

def Number.text : Number → String
  | .integer n => n.repr
  | .real x => .ofList (realText x.toBits)

structure Numeral where
  negative : Bool
  whole : List Char
  fraction : List Char
  exponent : Option (Bool × List Char)
  deriving DecidableEq

namespace Reader

def digits (s : List Char) : List Char := s.takeWhile Char.isDigit

def afterDigits (s : List Char) : Remainder s :=
  ⟨s.dropWhile Char.isDigit, (List.dropWhile_sublist _).length_le⟩

def someDigits (cut : Fault) (s : List Char) : Except Fault (List Char × Remainder s) :=
  match s.head? with
  | none => .error cut
  | some c => if c.isDigit then .ok (digits s, afterDigits s) else .error .invalidNumber

def fractionPart (cut : Fault) (s : List Char) : Except Fault (List Char × Remainder s) :=
  match s with
  | [] => .ok ([], Remainder.all _)
  | c :: r =>
    if c = '.' then
      match someDigits cut r with
      | .error fault => .error fault
      | .ok (ds, t) => .ok (ds, ⟨t.1, Nat.le_succ_of_le t.2⟩)
    else .ok ([], Remainder.all _)

def exponentSign (s : List Char) : Bool × Remainder s :=
  match s with
  | '-' :: r => (true, ⟨r, Nat.le_succ _⟩)
  | '+' :: r => (false, ⟨r, Nat.le_succ _⟩)
  | r => (false, Remainder.all r)

def exponentPart (cut : Fault) (s : List Char) : Except Fault (Option (Bool × List Char) × Remainder s) :=
  match s with
  | [] => .ok (none, Remainder.all _)
  | c :: r =>
    if c = 'e' ∨ c = 'E' then
      let (minus, t) := exponentSign r
      match someDigits cut t.1 with
      | .error fault => .error fault
      | .ok (ds, u) => .ok (some (minus, ds), ⟨u.1, Nat.le_succ_of_le (Nat.le_trans u.2 t.2)⟩)
    else .ok (none, Remainder.all _)

def unsigned (cut : Fault) (negative : Bool) : Reader Numeral := fun s =>
  match s with
  | [] => .error cut
  | c :: r =>
    if !c.isDigit || (c == '0' && r.head?.any Char.isDigit) then .error .invalidNumber
    else
      match fractionPart cut (afterDigits r).1 with
      | .error fault => .error fault
      | .ok (fraction, t) =>
        match exponentPart cut t.1 with
        | .error fault => .error fault
        | .ok (exponent, u) =>
          .ok (⟨negative, c :: digits r, fraction, exponent⟩,
            ⟨u.1, Nat.lt_succ_of_le (Nat.le_trans u.2 (Nat.le_trans t.2 (afterDigits r).2))⟩)

def numeral (cut : Fault) : Reader Numeral := fun s =>
  match s with
  | [] => .error cut
  | c :: r => if c = '-' then past (unsigned cut true) c r else unsigned cut false (c :: r)

end Reader

def digitValue (c : Char) : Nat := c.toNat - 48

-- A significand takes digits as long as it stays below 2 ^ 64; the second part counts those it left.
def gather : Nat → List Char → Nat × Nat
  | n, [] => (n, 0)
  | n, d :: ds =>
    let next := 10 * n + digitValue d
    if next < Nat.pow 2 64 then gather next ds else (n, ds.length + 1)

def powerOfTen (k : Nat) : Float := .ofScientific 1 false k

-- `x · 10 ^ e` in double arithmetic. No double is as large as 10 ^ 309, so a larger exponent is too large for all
-- but zero, and a smaller one goes down in several steps.
def scale (x : Float) (e : Int) : Except Fault Float :=
  if e.natAbs ≤ 308 then
    if e < 0 then .ok (x / powerOfTen e.natAbs)
    else
      let y := x * powerOfTen e.natAbs
      if y.isInf then .error .numberOutOfRange else .ok y
  else if x == 0 then .ok x
  else if 0 ≤ e then .error .numberOutOfRange
  else scale (x / powerOfTen 308) (e + 308)
termination_by e.natAbs
decreasing_by omega

def withSign (negative : Bool) (x : Float) : Number := .real (if negative then -x else x)

-- The number for `significand · 10 ^ e`, with the written exponent added to `e`. An exponent beyond 2 ^ 31 is not
-- looked at further: it makes a zero, unless it is positive and the significand is not zero.
def realNumber (negative : Bool) (significand : Nat) (e : Int) (exponent : Option (Bool × List Char)) :
    Except Fault Number :=
  match exponent with
  | none => (scale (.ofNat significand) e).map (withSign negative)
  | some (minus, ds) =>
    let power := ds.foldl (fun n d => 10 * n + digitValue d) 0
    if Nat.pow 2 31 ≤ power then
      if significand = 0 ∨ minus then .ok (withSign negative 0) else .error .numberOutOfRange
    else (scale (.ofNat significand) (if minus then e - power else e + power)).map (withSign negative)

-- The digits left by the significand before the point count as tens, those taken behind it as tenths.
def Numeral.number? (n : Numeral) : Except Fault Number :=
  let (whole, left) := gather 0 n.whole
  if n.fraction = [] ∧ n.exponent = none ∧ left = 0 then
    if !n.negative then .ok (.integer whole)
    else if whole = 0 ∨ Nat.pow 2 63 < whole then .ok (withSign true (.ofNat whole))
    else .ok (.integer (-whole))
  else
    let (significand, ignored) := gather whole n.fraction
    realNumber n.negative significand (left - (n.fraction.length - ignored : Nat)) n.exponent

def Reader.number : Reader Number := (Reader.numeral (.unfinished .value)).check Numeral.number?

def Reader.passNumber : Reader Unit := (numeral .invalidNumber).map fun _ => ()

end Criteria.Json
