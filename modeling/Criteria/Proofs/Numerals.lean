import Criteria.Json.Number
import Criteria.Proofs.Texts
import Mathlib.Algebra.Group.Int.Defs

namespace Criteria.Json
open Reader

def Digits (ds : List Char) : Prop := ds ≠ [] ∧ ∀ c ∈ ds, c.isDigit = true

instance (ds : List Char) : Decidable (Digits ds) :=
  @instDecidableAnd _ _ inferInstance (List.decidableBAll _ ds)

def WholeText (w : List Char) : Prop := Digits w ∧ (w.head? = some '0' → w = ['0'])

instance (w : List Char) : Decidable (WholeText w) :=
  inferInstanceAs (Decidable (Digits w ∧ (w.head? = some '0' → w = ['0'])))

def FractionText (f : List Char) : Prop := f = [] ∨ ∃ ds, Digits ds ∧ f = '.' :: ds

def ExponentText (e : List Char) : Prop :=
  e = [] ∨ ∃ mark sign ds, (mark = 'e' ∨ mark = 'E') ∧ (sign = [] ∨ sign = ['+'] ∨ sign = ['-']) ∧ Digits ds ∧
    e = mark :: (sign ++ ds)

def NumberText (t : List Char) : Prop :=
  ∃ sign w f e, (sign = [] ∨ sign = ['-']) ∧ WholeText w ∧ FractionText f ∧ ExponentText e ∧
    t = sign ++ (w ++ (f ++ e))

def FractionOf (ds f : List Char) : Prop := ds = [] ∧ f = [] ∨ Digits ds ∧ f = '.' :: ds

inductive ExponentOf : Option (Bool × List Char) → List Char → Prop where
  | none : ExponentOf none []
  | some {mark : Char} {sign ds : List Char} : mark = 'e' ∨ mark = 'E' → sign = [] ∨ sign = ['+'] ∨ sign = ['-'] →
      Digits ds → ExponentOf (some (sign == ['-'], ds)) (mark :: (sign ++ ds))

def NumeralText (n : Numeral) (t : List Char) : Prop :=
  ∃ f e, WholeText n.whole ∧ FractionOf n.fraction f ∧ ExponentOf n.exponent e ∧
    t = (if n.negative then ['-'] else []) ++ (n.whole ++ (f ++ e))

theorem FractionOf.text {ds f : List Char} (fraction : FractionOf ds f) : FractionText f := by
  rcases fraction with ⟨_, rfl⟩ | ⟨digits, rfl⟩
  · exact .inl rfl
  · exact .inr ⟨ds, digits, rfl⟩

theorem ExponentOf.text {x : Option (Bool × List Char)} {e : List Char} (exponent : ExponentOf x e) :
    ExponentText e := by
  cases exponent with
  | none => exact .inl rfl
  | some known signed digits => exact .inr ⟨_, _, _, known, signed, digits, rfl⟩

theorem NumeralText.text {n : Numeral} {t : List Char} (numeral : NumeralText n t) : NumberText t := by
  obtain ⟨f, e, whole, fraction, exponent, rfl⟩ := numeral
  exact ⟨_, n.whole, f, e, by cases n.negative <;> simp, whole, fraction.text, exponent.text, rfl⟩

theorem NumberText.numeral {t : List Char} (number : NumberText t) : ∃ n, NumeralText n t := by
  obtain ⟨sign, w, f, e, signed, whole, fraction, exponent, rfl⟩ := number
  obtain ⟨ds, fraction⟩ : ∃ ds, FractionOf ds f := by
    rcases fraction with rfl | ⟨ds, digits, rfl⟩
    · exact ⟨[], .inl ⟨rfl, rfl⟩⟩
    · exact ⟨ds, .inr ⟨digits, rfl⟩⟩
  obtain ⟨x, exponent⟩ : ∃ x, ExponentOf x e := by
    rcases exponent with rfl | ⟨mark, sign, ds, known, signed, digits, rfl⟩
    · exact ⟨none, .none⟩
    · exact ⟨_, .some known signed digits⟩
  rcases signed with rfl | rfl
  · exact ⟨⟨false, w, ds, x⟩, f, e, whole, fraction, exponent, rfl⟩
  · exact ⟨⟨true, w, ds, x⟩, f, e, whole, fraction, exponent, rfl⟩

section Readers

-- `a` was taken, which may be nothing, and `r` is left.
def Leaves {α : Type} {s : List Char} (x : Except Fault (α × Remainder s)) (a : α) (r : List Char) : Prop :=
  ∃ u, x = .ok (a, u) ∧ u.1 = r

def NoDigit (r : List Char) : Prop := ∀ c ∈ r.head?, c.isDigit = false

theorem Ends.noDigit {r : List Char} (ends : Ends r) : NoDigit r := fun c head => (ends c head).1

theorem digits_append {ds r : List Char} (all : ∀ c ∈ ds, c.isDigit = true) (stop : NoDigit r) :
    digits (ds ++ r) = ds ∧ (afterDigits (ds ++ r)).1 = r := by
  have none : r.takeWhile Char.isDigit = [] ∧ r.dropWhile Char.isDigit = r := by
    cases r with
    | nil => exact ⟨rfl, rfl⟩
    | cons c r =>
      have other : ¬ c.isDigit = true := by simp [stop c rfl]
      exact ⟨List.takeWhile_cons_of_neg other, List.dropWhile_cons_of_neg other⟩
  constructor
  · exact (List.takeWhile_append_of_pos all).trans (by rw [none.1, List.append_nil])
  · exact (List.dropWhile_append_of_pos all).trans none.2

theorem leaves_someDigits (cut : Fault) {ds r : List Char} (digits : Digits ds) (stop : NoDigit r) :
    Leaves (someDigits cut (ds ++ r)) ds r := by
  obtain ⟨filled, all⟩ := digits
  obtain ⟨taken, rest⟩ := digits_append all stop
  obtain _ | ⟨c, ds⟩ := ds
  · exact absurd rfl filled
  have first : c.isDigit = true := all c (by simp)
  have read : someDigits cut (c :: ds ++ r) = .ok (Reader.digits (c :: ds ++ r), afterDigits (c :: ds ++ r)) := by
    simp [someDigits, first]
  exact ⟨_, by rw [read, taken], rest⟩

theorem leaves_fractionPart (cut : Fault) {ds f r : List Char} (fraction : FractionOf ds f)
    (point : ∀ c ∈ r.head?, c.isDigit = false ∧ c ≠ '.') : Leaves (fractionPart cut (f ++ r)) ds r := by
  rcases fraction with ⟨rfl, rfl⟩ | ⟨digits, rfl⟩
  · cases r with
    | nil => exact ⟨Remainder.all _, rfl, rfl⟩
    | cons c r => exact ⟨Remainder.all _, by simp [fractionPart, (point c rfl).2], rfl⟩
  · obtain ⟨u, read, rest⟩ := leaves_someDigits cut digits fun c head => (point c head).1
    exact ⟨⟨u.1, Nat.le_succ_of_le u.2⟩, by simp [fractionPart, read], rest⟩

theorem exponentSign_unsigned {s : List Char} (unsigned : ∀ c ∈ s.head?, c ≠ '-' ∧ c ≠ '+') :
    exponentSign s = (false, Remainder.all s) := by
  unfold exponentSign
  split
  · exact absurd rfl (unsigned _ rfl).1
  · exact absurd rfl (unsigned _ rfl).2
  · rfl

theorem exponentSign_append {sign ds : List Char} (signed : sign = [] ∨ sign = ['+'] ∨ sign = ['-'])
    (digits : Digits ds) (r : List Char) :
    (exponentSign (sign ++ (ds ++ r))).1 = (sign == ['-']) ∧ (exponentSign (sign ++ (ds ++ r))).2.1 = ds ++ r := by
  obtain rfl | rfl | rfl := signed
  · obtain ⟨filled, all⟩ := digits
    obtain _ | ⟨c, ds⟩ := ds
    · exact absurd rfl filled
    have first : c.isDigit = true := all c (by simp)
    have unsigned : ∀ d ∈ (c :: (ds ++ r)).head?, d ≠ '-' ∧ d ≠ '+' := by
      rintro d ⟨⟩
      constructor <;> rintro rfl <;> simp [Char.isDigit] at first
    rw [List.nil_append, List.cons_append, exponentSign_unsigned unsigned]
    exact ⟨rfl, rfl⟩
  · exact ⟨rfl, rfl⟩
  · exact ⟨rfl, rfl⟩

theorem leaves_exponentPart (cut : Fault) {x : Option (Bool × List Char)} {e r : List Char}
    (exponent : ExponentOf x e) (ends : Ends r) : Leaves (exponentPart cut (e ++ r)) x r := by
  cases exponent with
  | none =>
    cases r with
    | nil => exact ⟨Remainder.all _, rfl, rfl⟩
    | cons c r =>
      obtain ⟨_, _, lower, upper⟩ := ends c rfl
      exact ⟨Remainder.all _, by simp [exponentPart, lower, upper], rfl⟩
  | @some mark sign ds known signed digits =>
    have order : mark :: (sign ++ ds) ++ r = mark :: (sign ++ (ds ++ r)) := by simp
    obtain ⟨minus, after⟩ := exponentSign_append signed digits r
    have counted := leaves_someDigits cut digits ends.noDigit
    rw [← after] at counted
    obtain ⟨u, read, rest⟩ := counted
    rw [order]
    refine ⟨⟨u.1, Nat.le_succ_of_le (Nat.le_trans u.2 (exponentSign _).2.2)⟩, ?_, rest⟩
    simp [exponentPart, known, read, minus]

theorem ends_exponent {x : Option (Bool × List Char)} {e r : List Char} (exponent : ExponentOf x e) (ends : Ends r) :
    ∀ c ∈ (e ++ r).head?, c.isDigit = false ∧ c ≠ '.' := by
  cases exponent with
  | none => exact fun c head => ⟨(ends c head).1, (ends c head).2.1⟩
  | some known => obtain rfl | rfl := known <;> simp [Char.isDigit]

theorem noDigit_fraction {ds f r : List Char} (fraction : FractionOf ds f) (stop : NoDigit r) : NoDigit (f ++ r) := by
  rcases fraction with ⟨_, rfl⟩ | ⟨_, rfl⟩
  · exact stop
  · simp [NoDigit, Char.isDigit]

theorem NoDigit.any {r : List Char} (stop : NoDigit r) : r.head?.any Char.isDigit = false := by
  cases r with
  | nil => rfl
  | cons c r => exact stop c rfl

theorem reads_unsigned (cut : Fault) (negative : Bool) {w ds f e r : List Char} {x : Option (Bool × List Char)}
    (whole : WholeText w) (fraction : FractionOf ds f) (exponent : ExponentOf x e) (ends : Ends r) :
    Reads (unsigned cut negative) (w ++ (f ++ (e ++ r))) ⟨negative, w, ds, x⟩ r := by
  obtain ⟨⟨filled, all⟩, zero⟩ := whole
  obtain _ | ⟨c, w⟩ := w
  · exact absurd rfl filled
  have point := ends_exponent exponent ends
  have stop : NoDigit (f ++ (e ++ r)) := noDigit_fraction fraction fun d head => (point d head).1
  have first : c.isDigit = true := all c (by simp)
  have alone : (c == '0' && (w ++ (f ++ (e ++ r))).head?.any Char.isDigit) = false := by
    by_cases zeroFirst : c = '0'
    · subst zeroFirst
      obtain rfl : w = [] := by simpa using zero rfl
      exact stop.any
    · simp [zeroFirst]
  obtain ⟨taken, after⟩ := digits_append (fun d member => all d (List.mem_cons_of_mem c member)) stop
  have pointed := leaves_fractionPart cut fraction point
  rw [← after] at pointed
  obtain ⟨t, readFraction, restFraction⟩ := pointed
  have powered := leaves_exponentPart cut exponent ends
  rw [← restFraction] at powered
  obtain ⟨u, readExponent, restExponent⟩ := powered
  have shorter : r.length < (c :: (w ++ (f ++ (e ++ r)))).length := by
    simp only [List.length_cons, List.length_append]
    omega
  refine ⟨shorter, ?_⟩
  change unsigned cut negative (c :: (w ++ (f ++ (e ++ r)))) = _
  simp only [unsigned, first, alone, taken, readFraction, readExponent, restExponent, Bool.not_true, Bool.false_or,
    Bool.false_eq_true, if_false]

theorem reads_numeral (cut : Fault) {n : Numeral} {t r : List Char} (written : NumeralText n t) (ends : Ends r) :
    Reads (numeral cut) (t ++ r) n r := by
  obtain ⟨negative, w, ds, x⟩ := n
  obtain ⟨f, e, whole, fraction, exponent, rfl⟩ := written
  obtain ⟨h, read⟩ := reads_unsigned cut negative whole fraction exponent ends
  cases negative with
  | false =>
    obtain ⟨⟨filled, all⟩, _⟩ := whole
    obtain _ | ⟨c, w⟩ := w
    · exact absurd rfl filled
    have first : c ≠ '-' := by
      rintro rfl
      simpa [Char.isDigit] using all '-' (by simp)
    simp only [Bool.false_eq_true, if_false, List.nil_append, List.append_assoc, List.cons_append] at h read ⊢
    exact ⟨h, by simp [numeral, first, read]⟩
  | true =>
    obtain ⟨k, passed⟩ := past_of_reads ⟨h, read⟩ '-'
    simp only [if_true, List.append_assoc, List.cons_append, List.nil_append]
    exact ⟨k, by simp [numeral, passed]⟩

-- The other way round: what was read as a part is a text of that part.

variable {cut : Fault} {s r : List Char}

theorem digits_take (s : List Char) : (∀ c ∈ digits s, c.isDigit = true) ∧ s = digits s ++ (afterDigits s).1 :=
  ⟨List.all_eq_true.mp List.all_takeWhile, List.takeWhile_append_dropWhile.symm⟩

theorem someDigits_eq_ok {ds : List Char} {u : Remainder s} (read : someDigits cut s = .ok (ds, u)) :
    Digits ds ∧ s = ds ++ u.1 := by
  cases s with
  | nil => cases read
  | cons c s =>
    obtain ⟨all, whole⟩ := digits_take (c :: s)
    by_cases first : c.isDigit = true
    · simp only [someDigits, List.head?_cons, first, if_true, Except.ok.injEq, Prod.mk.injEq] at read
      obtain ⟨rfl, rfl⟩ := read
      refine ⟨⟨?_, all⟩, whole⟩
      simp [digits, first]
    · simp [someDigits, first] at read

theorem fractionPart_eq_ok {ds : List Char} {u : Remainder s} (read : fractionPart cut s = .ok (ds, u)) :
    ∃ f, FractionOf ds f ∧ s = f ++ u.1 := by
  cases s with
  | nil =>
    cases read
    exact ⟨[], .inl ⟨rfl, rfl⟩, rfl⟩
  | cons c s =>
    rw [fractionPart] at read
    split at read
    · rename_i point
      split at read
      · cases read
      · rename_i taken
        cases read
        obtain ⟨digits, whole⟩ := someDigits_eq_ok taken
        exact ⟨_, .inr ⟨digits, rfl⟩, by rw [point, List.cons_append, ← whole]⟩
    · cases read
      exact ⟨[], .inl ⟨rfl, rfl⟩, rfl⟩

theorem exponentSign_parts (s : List Char) :
    ∃ sign, (sign = [] ∨ sign = ['+'] ∨ sign = ['-']) ∧ (exponentSign s).1 = (sign == ['-']) ∧
      s = sign ++ (exponentSign s).2.1 := by
  unfold exponentSign
  split
  · exact ⟨['-'], .inr (.inr rfl), rfl, rfl⟩
  · exact ⟨['+'], .inr (.inl rfl), rfl, rfl⟩
  · exact ⟨[], .inl rfl, rfl, rfl⟩

theorem exponentPart_eq_ok {x : Option (Bool × List Char)} {u : Remainder s}
    (read : exponentPart cut s = .ok (x, u)) : ∃ e, ExponentOf x e ∧ s = e ++ u.1 := by
  cases s with
  | nil =>
    cases read
    exact ⟨[], .none, rfl⟩
  | cons c s =>
    rw [exponentPart] at read
    split at read
    · rename_i known
      obtain ⟨sign, signed, minus, whole⟩ := exponentSign_parts s
      dsimp only at read
      split at read
      · cases read
      · rename_i ds v taken
        cases read
        obtain ⟨digits, after⟩ := someDigits_eq_ok taken
        rw [minus]
        refine ⟨c :: (sign ++ ds), .some known signed digits, ?_⟩
        rw [List.cons_append, List.append_assoc, ← after, ← whole]
    · cases read
      exact ⟨[], .none, rfl⟩

theorem unsigned_of_reads {negative : Bool} {n : Numeral} (read : Reads (unsigned cut negative) s n r) :
    ∃ f e, WholeText n.whole ∧ FractionOf n.fraction f ∧ ExponentOf n.exponent e ∧ n.negative = negative ∧
      s = n.whole ++ (f ++ (e ++ r)) := by
  obtain ⟨_, read⟩ := read
  cases s with
  | nil => cases read
  | cons c s =>
    unfold unsigned at read
    dsimp only at read
    split at read
    · cases read
    rename_i alone
    split at read
    · cases read
    rename_i ds t readFraction
    split at read
    · cases read
    rename_i x u readExponent
    cases read
    obtain ⟨f, fraction, afterWhole⟩ := fractionPart_eq_ok readFraction
    obtain ⟨e, exponent, afterFraction⟩ := exponentPart_eq_ok readExponent
    obtain ⟨all, whole⟩ := digits_take s
    simp only [Bool.or_eq_true, Bool.not_eq_true', Bool.and_eq_true, beq_iff_eq, not_or, Bool.not_eq_false] at alone
    refine ⟨f, e, ⟨⟨List.cons_ne_nil _ _, List.forall_mem_cons.mpr ⟨alone.1, all⟩⟩, ?_⟩, fraction, exponent, rfl, ?_⟩
    · intro zero
      obtain rfl : c = '0' := by simpa using zero
      have empty : digits s = [] := by
        cases s with
        | nil => rfl
        | cons d s => exact List.takeWhile_cons_of_neg fun more => alone.2 ⟨rfl, more⟩
      rw [empty]
    · rw [← afterFraction, ← afterWhole, List.cons_append, ← whole]

theorem numeralText_of_reads {n : Numeral} (read : Reads (numeral cut) s n r) :
    ∃ t, NumeralText n t ∧ s = t ++ r := by
  obtain ⟨shorter, read⟩ := read
  cases s with
  | nil => cases read
  | cons c s =>
    unfold numeral at read
    dsimp only at read
    split at read
    · rename_i minus
      unfold past at read
      split at read
      · cases read
      · rename_i n t taken
        cases read
        obtain ⟨f, e, whole, fraction, exponent, negative, equal⟩ := unsigned_of_reads ⟨t.2, taken⟩
        exact ⟨_, ⟨f, e, whole, fraction, exponent, rfl⟩, by simp [negative, minus, equal]⟩
    · obtain ⟨f, e, whole, fraction, exponent, negative, equal⟩ := unsigned_of_reads ⟨shorter, read⟩
      exact ⟨_, ⟨f, e, whole, fraction, exponent, rfl⟩, by simp [negative, equal]⟩

end Readers

section Integers

theorem gather_eq {n : Nat} {ds : List Char} (small : Nat.ofDigitChars 10 ds n < Nat.pow 2 64) :
    gather n ds = (Nat.ofDigitChars 10 ds n, 0) := by
  induction ds generalizing n with
  | nil => rfl
  | cons d ds ih =>
    rw [Nat.ofDigitChars_cons] at small ⊢
    have grows : 10 * n + digitValue d ≤ Nat.ofDigitChars 10 ds (10 * n + digitValue d) := by
      rw [Nat.ofDigitChars_eq_ofDigitChars_zero]
      exact Nat.le_add_right_of_le (Nat.le_mul_of_pos_left _ (Nat.pow_pos (by decide)))
    have below : 10 * n + digitValue d < Nat.pow 2 64 := Nat.lt_of_le_of_lt grows small
    rw [gather]
    simp only [below, if_true]
    exact ih small

theorem wholeText_toDigits (n : Nat) : WholeText (Nat.toDigits 10 n) := by
  refine ⟨⟨Nat.toDigits_ne_nil, fun c member => Nat.isDigit_of_mem_toDigits (by decide) (by decide) member⟩, ?_⟩
  induction n using Nat.strongRecOn with
  | ind n ih =>
    intro zero
    by_cases single : n < 10
    · rw [Nat.toDigits_of_lt_base single] at zero ⊢
      simpa using zero
    · rw [Nat.toDigits_of_base_le (by decide) (by omega), List.head?_append_of_ne_nil _ Nat.toDigits_ne_nil] at zero
      have leading := ih (n / 10) (by omega) zero
      have none := Nat.ofDigitChars_ten_toDigits (n := n / 10)
      rw [leading] at none
      have small : n / 10 = 0 := none.symm
      omega

def Numeral.ofInt (n : Int) : Numeral := ⟨n < 0, Nat.toDigits 10 n.natAbs, [], none⟩

theorem numeralText_ofInt (n : Int) : NumeralText (.ofInt n) n.repr.toList := by
  refine ⟨[], [], wholeText_toDigits _, .inl ⟨rfl, rfl⟩, .none, ?_⟩
  cases n with
  | ofNat n => simp [Numeral.ofInt, Int.repr, Nat.repr]
  | negSucc n => simp [Numeral.ofInt, Int.repr, Nat.repr, Int.negSucc_lt_zero]

theorem number?_ofInt {n : Int} (least : -2 ^ 63 ≤ n) (most : n < 2 ^ 64) :
    (Numeral.ofInt n).number? = .ok (.integer n) := by
  have value : Nat.ofDigitChars 10 (Nat.toDigits 10 n.natAbs) 0 = n.natAbs := Nat.ofDigitChars_ten_toDigits
  have gathered : gather 0 (Nat.toDigits 10 n.natAbs) = (n.natAbs, 0) := by
    rw [gather_eq (by rw [value]; change n.natAbs < 2 ^ 64; omega), value]
  unfold Numeral.number?
  simp only [Numeral.ofInt, gathered, true_and, if_true]
  by_cases negative : n < 0
  · have small : ¬ (n.natAbs = 0 ∨ Nat.pow 2 63 < n.natAbs) := by
      change ¬ (n.natAbs = 0 ∨ 2 ^ 63 < n.natAbs)
      omega
    have back : -(n.natAbs : Int) = n := by omega
    simp only [negative, decide_true, Bool.not_true, Bool.false_eq_true, if_false, if_neg small, back]
  · have back : (n.natAbs : Int) = n := by omega
    simp only [negative, decide_false, Bool.not_false, if_true, back]

end Integers
end Criteria.Json
