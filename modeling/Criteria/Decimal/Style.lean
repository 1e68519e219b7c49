import Criteria.Decimal.Shortest

namespace Criteria.Decimal

-- For which exponents of the leading digit a decimal is written positionally.
structure Style where
  least : Int
  most : Int

def positional (digits : List Char) (e : Int) : List Char :=
  if 0 ≤ e then digits ++ List.replicate e.toNat '0' ++ ['.', '0']
  else
    let places := (-e).toNat
    if places < digits.length then
      digits.take (digits.length - places) ++ '.' :: digits.drop (digits.length - places)
    else '0' :: '.' :: List.replicate (places - digits.length) '0' ++ digits

def scientific (digits : List Char) (e : Int) : List Char :=
  let point := if digits.length ≤ 1 then [] else ['.']
  digits.take 1 ++ point ++ digits.drop 1 ++ ['e', if e < 0 then '-' else '+'] ++ Nat.toDigits 10 e.natAbs

def chars (style : Style) (d : Decimal) : List Char :=
  let digits := Nat.toDigits 10 d.coefficient
  let order := d.exponent + digits.length - 1
  if style.least ≤ order ∧ order ≤ style.most then positional digits d.exponent
  else scientific digits order

end Criteria.Decimal
