namespace Criteria

structure Decimal where
  coefficient : Nat
  exponent : Int
  deriving DecidableEq

namespace Decimal

structure Binary where
  significand : Nat
  exponent : Int
  deriving DecidableEq

def Binary.ofBits (bits : UInt64) : Binary :=
  let field : Nat := bits.toNat / Nat.pow 2 52 % 2048
  let fraction : Nat := bits.toNat % Nat.pow 2 52
  if field = 0 then ⟨fraction, -1074⟩ else ⟨fraction + Nat.pow 2 52, (field : Int) - 1075⟩

-- The reals that round to one double, as fractions over one denominator.
structure Span where
  low : Nat
  value : Nat
  high : Nat
  denominator : Nat
  closed : Bool
  deriving DecidableEq

-- The neighbours of a double lie one unit away, except below a power of two, where the unit halves.
def Binary.span (b : Binary) : Span :=
  let below := if b.significand = Nat.pow 2 52 ∧ b.exponent ≠ -1074 then 1 else 2
  let scale := Nat.pow 2 (b.exponent - 2).toNat
  ⟨(4 * b.significand - below) * scale, 4 * b.significand * scale, (4 * b.significand + 2) * scale,
    Nat.pow 2 (2 - b.exponent).toNat, b.significand % 2 == 0⟩

def Span.within (s : Span) (scale point : Nat) : Bool :=
  if s.closed then s.low * scale ≤ point && point ≤ s.high * scale
  else s.low * scale < point && point < s.high * scale

def Span.onGrid? (s : Span) (k : Int) : Option Nat :=
  let scale := Nat.pow 10 (-k).toNat
  let unit := s.denominator * Nat.pow 10 k.toNat
  let value := s.value * scale
  let lower := value / unit
  match s.within scale (lower * unit), s.within scale ((lower + 1) * unit) with
  | false, false => none
  | true, false => some lower
  | false, true => some (lower + 1)
  | true, true =>
    let twice := 2 * (value % unit)
    if twice < unit then some lower
    else if unit < twice then some (lower + 1)
    else some (if lower % 2 = 0 then lower else lower + 1)

def Span.search (s : Span) : Nat → Int → Decimal
  | 0, k => ⟨s.value * Nat.pow 10 (-k).toNat / (s.denominator * Nat.pow 10 k.toNat), k⟩
  | steps + 1, k =>
    match s.onGrid? k with
    | some n => ⟨n, k⟩
    | none => s.search steps (k - 1)

def Span.order (s : Span) : Int :=
  if s.denominator ≤ s.value then (Nat.toDigits 10 (s.value / s.denominator)).length
  else 1 - (Nat.toDigits 10 (s.denominator / s.value)).length

-- Seventeen digits tell any two doubles apart, so the search ends before its steps do.
def shortest (b : Binary) : Decimal :=
  let s := b.span
  s.search 20 s.order

end Decimal
end Criteria
