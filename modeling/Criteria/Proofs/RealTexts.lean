import Criteria.Proofs.Numerals
import Criteria.Proofs.NearestDoubles

namespace Criteria.Json
open Decimal

def exponentValue : Option (Bool × List Char) → Int
  | none => 0
  | some (minus, ds) => if minus then -(Nat.ofDigitChars 10 ds 0) else Nat.ofDigitChars 10 ds 0

def Numeral.magnitude (n : Numeral) : ℚ :=
  Nat.ofDigitChars 10 (n.whole ++ n.fraction) 0 * 10 ^ (exponentValue n.exponent - n.fraction.length)

structure FiguresOf (n : Nat) (ds : List Char) : Prop where
  digits : Digits ds
  leading : ds.head? ≠ some '0'
  value : Nat.ofDigitChars 10 ds 0 = n

theorem figuresOf_toDigits {n : Nat} (positive : 0 < n) : FiguresOf n (Nat.toDigits 10 n) := by
  refine ⟨(wholeText_toDigits n).1, fun zero => ?_, Nat.ofDigitChars_ten_toDigits⟩
  have value := Nat.ofDigitChars_ten_toDigits (n := n)
  rw [(wholeText_toDigits n).2 zero] at value
  exact absurd value positive.ne

-- A text is a numeral without a sign, worth as much as a decimal.
def Writes (d : Decimal) (t : List Char) : Prop :=
  ∃ n, NumeralText n t ∧ n.negative = false ∧ n.magnitude = d.toRat

theorem digits_zeros (n : Nat) : ∀ c ∈ List.replicate n '0', c.isDigit = true := by
  intro c member
  rw [List.eq_of_mem_replicate member]
  rfl

theorem exponentOf_scientific (e : Int) :
    ∃ x, ExponentOf x ('e' :: (if e < 0 then '-' else '+') :: Nat.toDigits 10 e.natAbs) ∧ exponentValue x = e := by
  have value := Nat.ofDigitChars_ten_toDigits (n := e.natAbs)
  have digits := (wholeText_toDigits e.natAbs).1
  split
  · refine ⟨_, .some (.inl rfl) (.inr (.inr rfl)) digits, ?_⟩
    change -(Nat.ofDigitChars 10 (Nat.toDigits 10 e.natAbs) 0 : Int) = e
    omega
  · refine ⟨_, .some (.inl rfl) (.inr (.inl rfl)) digits, ?_⟩
    change (Nat.ofDigitChars 10 (Nat.toDigits 10 e.natAbs) 0 : Int) = e
    omega

namespace FiguresOf
variable {d : Decimal} {ds : List Char}

theorem take {n k : Nat} (figures : FiguresOf n ds) (some : 0 < k) : WholeText (ds.take k) := by
  have leading : (ds.take k).head? ≠ Option.some '0' := by
    rw [List.head?_take, if_neg some.ne']
    exact figures.leading
  refine ⟨⟨?_, fun c member => figures.digits.2 c (List.mem_of_mem_take member)⟩, fun zero => absurd zero leading⟩
  rw [ne_eq, List.take_eq_nil_iff]
  exact not_or.mpr ⟨some.ne', figures.digits.1⟩

theorem drop {n k : Nat} (figures : FiguresOf n ds) (less : k < ds.length) : Digits (ds.drop k) := by
  refine ⟨?_, fun c member => figures.digits.2 c (List.mem_of_mem_drop member)⟩
  exact List.ne_nil_of_length_pos (by rw [List.length_drop]; omega)

theorem writes_whole (figures : FiguresOf d.coefficient ds) (up : 0 ≤ d.exponent) :
    Writes d (ds ++ List.replicate d.exponent.toNat '0' ++ ['.', '0']) := by
  have whole : WholeText (ds ++ List.replicate d.exponent.toNat '0') := by
    refine ⟨⟨List.append_ne_nil_of_left_ne_nil figures.digits.1 _, ?_⟩, fun zero => absurd zero ?_⟩
    · exact List.forall_mem_append.mpr ⟨figures.digits.2, digits_zeros _⟩
    · rw [List.head?_append_of_ne_nil _ figures.digits.1]
      exact figures.leading
  have zero : Digits ['0'] := by decide
  have power : (10 : ℚ) ^ d.exponent.toNat = 10 ^ d.exponent := by rw [← zpow_natCast, Int.toNat_of_nonneg up]
  refine ⟨⟨false, _, ['0'], none⟩, ⟨_, [], whole, .inr ⟨zero, rfl⟩, .none, by simp⟩, rfl, ?_⟩
  rw [Numeral.magnitude, Nat.ofDigitChars_append, Nat.ofDigitChars_append, figures.value,
    Nat.ofDigitChars_replicate_zero, toRat, ← power]
  simp [Nat.ofDigitChars_cons, exponentValue]
  ring

theorem writes_inner {places : Nat} (figures : FiguresOf d.coefficient ds) (down : d.exponent = -places)
    (some : 0 < places) (inner : places < ds.length) :
    Writes d (ds.take (ds.length - places) ++ '.' :: ds.drop (ds.length - places)) := by
  have whole := figures.take (Nat.sub_pos_of_lt inner)
  have behind := figures.drop (Nat.sub_lt (Nat.zero_lt_of_lt inner) some)
  have count : (ds.drop (ds.length - places)).length = places := by
    rw [List.length_drop]
    omega
  refine ⟨⟨false, _, _, none⟩, ⟨_, [], whole, .inr ⟨behind, rfl⟩, .none, by simp⟩, rfl, ?_⟩
  rw [Numeral.magnitude, List.take_append_drop, figures.value, count, exponentValue, zero_sub, ← down, toRat]

theorem writes_outer {places : Nat} (figures : FiguresOf d.coefficient ds) (down : d.exponent = -places)
    (outer : ds.length ≤ places) : Writes d ('0' :: '.' :: List.replicate (places - ds.length) '0' ++ ds) := by
  have zero : WholeText ['0'] := by decide
  have behind : Digits (List.replicate (places - ds.length) '0' ++ ds) :=
    ⟨List.append_ne_nil_of_right_ne_nil _ figures.digits.1,
      List.forall_mem_append.mpr ⟨digits_zeros _, figures.digits.2⟩⟩
  have count : (List.replicate (places - ds.length) '0' ++ ds).length = places := by
    rw [List.length_append, List.length_replicate]
    omega
  refine ⟨⟨false, ['0'], _, none⟩, ⟨_, [], zero, .inr ⟨behind, rfl⟩, .none, by simp⟩, rfl, ?_⟩
  rw [Numeral.magnitude, Nat.ofDigitChars_append, Nat.ofDigitChars_append, Nat.ofDigitChars_replicate_zero, count,
    exponentValue, zero_sub, ← down, toRat]
  simp [Nat.ofDigitChars_cons, figures.value]

theorem writes_positional (figures : FiguresOf d.coefficient ds) : Writes d (positional ds d.exponent) := by
  unfold positional
  split
  · rename_i up
    exact figures.writes_whole up
  · rename_i down
    have places : d.exponent = -((-d.exponent).toNat : Int) := by omega
    dsimp only
    split
    · rename_i inner
      exact figures.writes_inner places (by omega) inner
    · rename_i outer
      exact figures.writes_outer places (Nat.le_of_not_lt outer)

theorem writes_scientific (figures : FiguresOf d.coefficient ds) :
    Writes d (scientific ds (d.exponent + ds.length - 1)) := by
  obtain ⟨x, exponent, order⟩ := exponentOf_scientific (d.exponent + ds.length - 1)
  have fraction : FractionOf (ds.drop 1) ((if ds.length ≤ 1 then [] else ['.']) ++ ds.drop 1) := by
    split
    · rename_i single
      exact .inl ⟨List.drop_eq_nil_of_le single, List.drop_eq_nil_of_le single⟩
    · rename_i more
      exact .inr ⟨figures.drop (Nat.lt_of_not_le more), rfl⟩
  have some : 0 < ds.length := List.length_pos_of_ne_nil figures.digits.1
  have places : d.exponent + ds.length - 1 - (ds.drop 1).length = d.exponent := by
    rw [List.length_drop]
    omega
  refine ⟨⟨false, ds.take 1, ds.drop 1, x⟩, ⟨_, _, figures.take Nat.one_pos, fraction, exponent, ?_⟩, rfl, ?_⟩
  · simp [scientific]
  · rw [Numeral.magnitude, List.take_append_drop, figures.value, order, places, toRat]

end FiguresOf

theorem writes_chars (style : Style) {d : Decimal} (positive : 0 < d.coefficient) : Writes d (d.chars style) := by
  have figures := figuresOf_toDigits positive
  unfold Decimal.chars
  dsimp only
  split
  · exact figures.writes_positional
  · exact figures.writes_scientific

theorem numeralText_signed {n : Numeral} {t : List Char} (written : NumeralText n t) (plain : n.negative = false)
    (negative : Bool) : NumeralText { n with negative := negative } ((if negative then ['-'] else []) ++ t) := by
  obtain ⟨f, e, whole, fraction, exponent, rfl⟩ := written
  rw [plain]
  exact ⟨f, e, whole, fraction, exponent, rfl⟩

-- The text of every double is a number with its sign, which rounds to it and has no more digits than it needs for that.
theorem numeralText_realText (bits : UInt64) :
    ∃ n, NumeralText n (realText bits) ∧ n.negative = decide (2 ^ 63 ≤ bits.toNat) ∧
      (Binary.ofBits bits).Rounds n.magnitude ∧
      ((Binary.ofBits bits).significand ≠ 0 →
        ∃ d, (Binary.ofBits bits).span.Coarsest d ∧ n.magnitude = d.toRat) := by
  have sign : (if bits.toNat < Nat.pow 2 63 then [] else ['-']) =
      if decide (2 ^ 63 ≤ bits.toNat) then ['-'] else [] := by
    change (if bits.toNat < 2 ^ 63 then [] else ['-']) = _
    by_cases less : bits.toNat < 2 ^ 63
    · rw [if_pos less, decide_eq_false (Nat.not_le.mpr less)]
      rfl
    · rw [if_neg less, decide_eq_true (Nat.le_of_not_lt less)]
      rfl
  have double := Binary.ofBits_double bits
  unfold realText
  dsimp only
  rw [sign]
  split
  · rename_i zero
    have written : NumeralText ⟨false, ['0'], ['0'], none⟩ ['0', '.', '0'] :=
      ⟨['.', '0'], [], by decide, .inr ⟨by decide, rfl⟩, .none, rfl⟩
    refine ⟨_, numeralText_signed written rfl _, rfl, ?_, absurd zero⟩
    have worth : (Binary.ofBits bits).toRat = 0 := by rw [Binary.toRat, zero, Nat.cast_zero, zero_mul]
    have same := Binary.rounds_toRat (Binary.ofBits bits)
    simpa [worth, Numeral.magnitude, Nat.ofDigitChars_cons] using same
  · rename_i nonzero
    have positive := Nat.pos_of_ne_zero nonzero
    have coarsest := shortest_coarsest positive double.bounded
    have low := (span_narrow positive double.bounded).low_pos
    obtain ⟨n, written, plain, worth⟩ := writes_chars style (coarsest.holds.coefficient_pos low)
    refine ⟨_, numeralText_signed written plain _, rfl, ?_, fun _ => ⟨_, coarsest, worth⟩⟩
    change (Binary.ofBits bits).Rounds n.magnitude
    rw [worth]
    exact coarsest.holds.rounds positive double

example : realText 0x43F0000000000000 = "1.8446744073709552e+19".toList := by decide +kernel
example : realText 0x3EE4F8B588E368F1 = "0.00001".toList := by decide +kernel

end Criteria.Json
