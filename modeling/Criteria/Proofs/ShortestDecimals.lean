import Criteria.Decimal.Shortest
import Mathlib.Algebra.Order.Field.Power
import Mathlib.Data.Rat.Cast.Order
import Mathlib.Tactic.Linarith
import Mathlib.Tactic.Positivity
import Mathlib.Tactic.Ring

namespace Criteria.Decimal

def toRat (d : Decimal) : ℚ := d.coefficient * 10 ^ d.exponent

theorem zpow_ten_mul (k : Int) : (10 : ℚ) ^ k * (Nat.pow 10 (-k).toNat : Nat) = (Nat.pow 10 k.toNat : Nat) := by
  obtain ⟨n, rfl | rfl⟩ := k.eq_nat_or_neg <;> simp

theorem scale_pos (k : Int) : (0 : ℚ) < (Nat.pow 10 (-k).toNat : Nat) :=
  Nat.cast_pos.mpr (Nat.pow_pos (by decide))

theorem toRat_mono {m n : Nat} (k : Int) (le : m ≤ n) : toRat ⟨m, k⟩ ≤ toRat ⟨n, k⟩ := by
  unfold toRat
  gcongr

theorem toRat_succ (n : Nat) (k : Int) : toRat ⟨n + 1, k⟩ = toRat ⟨n, k⟩ + 10 ^ k := by
  simp only [toRat, Nat.cast_succ]
  ring

theorem quotient_bounds {m n : Nat} (positive : 0 < m) (le : m ≤ n) :
    (10 : ℚ) ^ ((Nat.toDigits 10 (n / m)).length - 1 : Int) * m ≤ n ∧
      (n : ℚ) ≤ 10 ^ ((Nat.toDigits 10 (n / m)).length : Int) * m := by
  have length := Nat.length_toDigits_pos (b := 10) (n := n / m)
  have cast : ((Nat.toDigits 10 (n / m)).length - 1 : Int) = ((Nat.toDigits 10 (n / m)).length - 1 : Nat) := by omega
  rw [cast, zpow_natCast, zpow_natCast]
  constructor
  · have lower : 10 ^ ((Nat.toDigits 10 (n / m)).length - 1) ≤ n / m := by
      rcases Nat.eq_zero_or_pos ((Nat.toDigits 10 (n / m)).length - 1) with one | more
      · rw [one]
        exact Nat.div_pos le positive
      · exact Nat.not_lt.mp (mt (Nat.length_toDigits_le_iff (by decide) more).mpr (by omega))
    exact_mod_cast (Nat.le_div_iff_mul_le positive).mp lower
  · have upper : n / m < 10 ^ (Nat.toDigits 10 (n / m)).length :=
      (Nat.length_toDigits_le_iff (by decide) length).mp (Nat.le_refl _)
    exact_mod_cast ((Nat.div_lt_iff_lt_mul positive).mp upper).le

namespace Span
variable {s : Span} {k : Int} {n : Nat} {d e : Decimal}

def Holds (s : Span) (d : Decimal) : Prop :=
  if s.closed then s.low ≤ d.toRat * s.denominator ∧ d.toRat * s.denominator ≤ s.high
  else s.low < d.toRat * s.denominator ∧ d.toRat * s.denominator < s.high

def distance (s : Span) (d : Decimal) : ℚ := |d.toRat * s.denominator - s.value|

def floor (s : Span) (k : Int) : Decimal :=
  ⟨s.value * Nat.pow 10 (-k).toNat / (s.denominator * Nat.pow 10 k.toNat), k⟩

def ceiling (s : Span) (k : Int) : Decimal := ⟨(s.floor k).coefficient + 1, k⟩

-- The ends are on their sides of the value, less than ten times apart and no nearer than its seventeenth digit.
structure Narrow (s : Span) : Prop where
  denominator_pos : 0 < s.denominator
  low_pos : 0 < s.low
  below : s.low < s.value
  above : s.value < s.high
  coarse : s.high < 10 * s.low
  fine : s.low * 10 ^ 17 + s.value ≤ s.value * 10 ^ 17

theorem cast_point (n : Nat) (k : Int) :
    ((n * (s.denominator * Nat.pow 10 k.toNat) : Nat) : ℚ) =
      toRat ⟨n, k⟩ * s.denominator * (Nat.pow 10 (-k).toNat : Nat) := by
  rw [Nat.cast_mul, Nat.cast_mul, ← zpow_ten_mul, toRat]
  ring

theorem le_point_iff {a : Nat} :
    a * Nat.pow 10 (-k).toNat ≤ n * (s.denominator * Nat.pow 10 k.toNat) ↔ a ≤ toRat ⟨n, k⟩ * s.denominator := by
  rw [← Nat.cast_le (α := ℚ), cast_point, Nat.cast_mul, mul_le_mul_iff_left₀ (scale_pos k)]

theorem point_le_iff {a : Nat} :
    n * (s.denominator * Nat.pow 10 k.toNat) ≤ a * Nat.pow 10 (-k).toNat ↔ toRat ⟨n, k⟩ * s.denominator ≤ a := by
  rw [← Nat.cast_le (α := ℚ), cast_point, Nat.cast_mul, mul_le_mul_iff_left₀ (scale_pos k)]

theorem within_iff :
    s.within (Nat.pow 10 (-k).toNat) (n * (s.denominator * Nat.pow 10 k.toNat)) = true ↔ s.Holds ⟨n, k⟩ := by
  unfold within Holds
  split <;> simp only [Bool.and_eq_true, decide_eq_true_eq, ← not_le, le_point_iff, point_le_iff]

theorem floor_le (s : Span) (k : Int) : (s.floor k).toRat * s.denominator ≤ s.value :=
  point_le_iff.mp (Nat.div_mul_le_self ..)

theorem lt_ceiling (parted : 0 < s.denominator) (k : Int) : s.value < (s.ceiling k).toRat * s.denominator := by
  have unit : 0 < s.denominator * Nat.pow 10 k.toNat := Nat.mul_pos parted (Nat.pow_pos (by decide))
  exact not_le.mp (mt point_le_iff.mpr (Nat.not_le.mpr ((Nat.div_lt_iff_lt_mul unit).mp (Nat.lt_succ_self _))))

theorem Holds.nearer (narrow : s.Narrow) (holds : s.Holds d)
    (between : d.toRat ≤ e.toRat ∧ e.toRat * s.denominator ≤ s.value ∨
      s.value ≤ e.toRat * s.denominator ∧ e.toRat ≤ d.toRat) : s.Holds e := by
  have below : (s.low : ℚ) < s.value := Nat.cast_lt.mpr narrow.below
  have above : (s.value : ℚ) < s.high := Nat.cast_lt.mpr narrow.above
  unfold Holds at *
  rcases between with ⟨le, left⟩ | ⟨right, le⟩
  · have := mul_le_mul_of_nonneg_right le (Nat.cast_nonneg s.denominator)
    split at holds <;> simp only [*] <;> constructor <;> linarith
  · have := mul_le_mul_of_nonneg_right le (Nat.cast_nonneg s.denominator)
    split at holds <;> simp only [*] <;> constructor <;> linarith

theorem not_holds_of_onGrid? (missed : s.onGrid? k = none) : ¬ s.Holds (s.floor k) ∧ ¬ s.Holds (s.ceiling k) := by
  unfold onGrid? at missed
  dsimp only at missed
  split at missed
  · rename_i low high
    exact ⟨fun held => Bool.false_ne_true (low.symm.trans (within_iff.mpr held)),
      fun held => Bool.false_ne_true (high.symm.trans (within_iff.mpr held))⟩
  · cases missed
  · cases missed
  · split at missed
    · cases missed
    · split at missed <;> cases missed

-- Of the points of a grid only the two next to the double need to be tried.
theorem floor_or_ceiling (narrow : s.Narrow) (holds : s.Holds ⟨n, k⟩) :
    s.Holds (s.floor k) ∧ s.distance (s.floor k) ≤ s.distance ⟨n, k⟩ ∨
      s.Holds (s.ceiling k) ∧ s.distance (s.ceiling k) ≤ s.distance ⟨n, k⟩ := by
  have left := floor_le s k
  have right := lt_ceiling narrow.denominator_pos k
  rcases Nat.lt_or_ge (s.floor k).coefficient n with above | below
  · have further : (s.ceiling k).toRat ≤ toRat ⟨n, k⟩ := toRat_mono k above
    have scaled := mul_le_mul_of_nonneg_right further (Nat.cast_nonneg s.denominator)
    refine .inr ⟨holds.nearer narrow (.inr ⟨right.le, further⟩), ?_⟩
    rw [distance, distance, abs_of_nonneg (by linarith), abs_of_nonneg (by linarith)]
    linarith
  · have further : toRat ⟨n, k⟩ ≤ (s.floor k).toRat := toRat_mono k below
    have scaled := mul_le_mul_of_nonneg_right further (Nat.cast_nonneg s.denominator)
    refine .inl ⟨holds.nearer narrow (.inl ⟨further, left⟩), ?_⟩
    rw [distance, distance, abs_of_nonpos (by linarith), abs_of_nonpos (by linarith)]
    linarith

theorem not_holds_of_missed (narrow : s.Narrow) (missed : s.onGrid? k = none) : ¬ s.Holds ⟨n, k⟩ := by
  intro holds
  obtain ⟨low, high⟩ := not_holds_of_onGrid? missed
  rcases floor_or_ceiling narrow holds with ⟨held, _⟩ | ⟨held, _⟩
  · exact low held
  · exact high held

theorem distance_scaled (parted : 0 < s.denominator) (k : Int) :
    ((s.value * Nat.pow 10 (-k).toNat % (s.denominator * Nat.pow 10 k.toNat) : Nat) : ℚ) =
        s.distance (s.floor k) * (Nat.pow 10 (-k).toNat : Nat) ∧
      ((s.denominator * Nat.pow 10 k.toNat : Nat) : ℚ) =
        (s.distance (s.floor k) + s.distance (s.ceiling k)) * (Nat.pow 10 (-k).toNat : Nat) := by
  have left := floor_le s k
  have right := lt_ceiling parted k
  have whole := congrArg (Nat.cast (R := ℚ))
    (Nat.div_add_mod' (s.value * Nat.pow 10 (-k).toNat) (s.denominator * Nat.pow 10 k.toNat))
  rw [Nat.cast_add, cast_point, Nat.cast_mul] at whole
  rw [distance, distance, abs_of_nonpos (by linarith), abs_of_nonneg (by linarith)]
  constructor
  · rw [floor]
    linarith
  · rw [Nat.cast_mul, ← zpow_ten_mul, ceiling, toRat_succ, floor]
    ring

theorem floor_nearer_iff (parted : 0 < s.denominator) :
    2 * (s.value * Nat.pow 10 (-k).toNat % (s.denominator * Nat.pow 10 k.toNat)) ≤
        s.denominator * Nat.pow 10 k.toNat ↔
      s.distance (s.floor k) ≤ s.distance (s.ceiling k) := by
  obtain ⟨rest, unit⟩ := distance_scaled parted k
  rw [← Nat.cast_le (α := ℚ), Nat.cast_mul, rest, unit, Nat.cast_two, ← mul_assoc, mul_le_mul_iff_left₀ (scale_pos k),
    two_mul, add_le_add_iff_left]

theorem ceiling_nearer_iff (parted : 0 < s.denominator) :
    s.denominator * Nat.pow 10 k.toNat ≤
        2 * (s.value * Nat.pow 10 (-k).toNat % (s.denominator * Nat.pow 10 k.toNat)) ↔
      s.distance (s.ceiling k) ≤ s.distance (s.floor k) := by
  obtain ⟨rest, unit⟩ := distance_scaled parted k
  rw [← Nat.cast_le (α := ℚ), Nat.cast_mul 2, rest, unit, Nat.cast_two, ← mul_assoc, mul_le_mul_iff_left₀ (scale_pos k),
    two_mul, add_le_add_iff_left]

theorem point_of_onGrid? (parted : 0 < s.denominator) (found : s.onGrid? k = some n) :
    ⟨n, k⟩ = s.floor k ∧ s.Holds (s.floor k) ∧
        (s.Holds (s.ceiling k) → s.distance (s.floor k) ≤ s.distance (s.ceiling k)) ∨
      ⟨n, k⟩ = s.ceiling k ∧ s.Holds (s.ceiling k) ∧
        (s.Holds (s.floor k) → s.distance (s.ceiling k) ≤ s.distance (s.floor k)) := by
  unfold onGrid? at found
  dsimp only at found
  split at found
  · cases found
  · rename_i held missed
    cases found
    refine .inl ⟨rfl, within_iff.mp held, fun other => ?_⟩
    exact absurd (missed.symm.trans (within_iff.mpr other)) Bool.false_ne_true
  · rename_i missed held
    cases found
    refine .inr ⟨rfl, within_iff.mp held, fun other => ?_⟩
    exact absurd (missed.symm.trans (within_iff.mpr other)) Bool.false_ne_true
  · rename_i low high
    split at found
    · rename_i less
      cases found
      exact .inl ⟨rfl, within_iff.mp low, fun _ => (floor_nearer_iff parted).mp less.le⟩
    · rename_i notLess
      split at found
      · cases found
        exact .inr ⟨rfl, within_iff.mp high, fun _ => (ceiling_nearer_iff parted).mp (Nat.le_of_not_lt notLess)⟩
      · rename_i notMore
        split at found
        · cases found
          exact .inl ⟨rfl, within_iff.mp low, fun _ => (floor_nearer_iff parted).mp (Nat.le_of_not_lt notMore)⟩
        · cases found
          exact .inr ⟨rfl, within_iff.mp high, fun _ => (ceiling_nearer_iff parted).mp (Nat.le_of_not_lt notLess)⟩

theorem holds_of_onGrid? (parted : 0 < s.denominator) (found : s.onGrid? k = some n) : s.Holds ⟨n, k⟩ := by
  rcases point_of_onGrid? parted found with ⟨same, held, _⟩ | ⟨same, held, _⟩
  · rwa [same]
  · rwa [same]

theorem nearest_of_onGrid? (narrow : s.Narrow) (found : s.onGrid? k = some n) {m : Nat} (holds : s.Holds ⟨m, k⟩) :
    s.distance ⟨n, k⟩ ≤ s.distance ⟨m, k⟩ := by
  rcases point_of_onGrid? narrow.denominator_pos found with ⟨same, _, nearer⟩ | ⟨same, _, nearer⟩ <;>
    rcases floor_or_ceiling narrow holds with ⟨held, le⟩ | ⟨held, le⟩ <;> rw [same]
  · exact le
  · exact (nearer held).trans le
  · exact (nearer held).trans le
  · exact le

theorem onGrid?_ne_none (narrow : s.Narrow) (fine : s.low + (10 : ℚ) ^ k * s.denominator ≤ s.value) :
    s.onGrid? k ≠ none := by
  intro missed
  have left := floor_le s k
  have right := lt_ceiling narrow.denominator_pos k
  have above : (s.value : ℚ) < s.high := Nat.cast_lt.mpr narrow.above
  rw [ceiling, toRat_succ, add_mul] at right
  change s.value < (s.floor k).toRat * s.denominator + _ at right
  apply (not_holds_of_onGrid? missed).1
  unfold Holds
  split <;> constructor <;> linarith

theorem search_found {steps : Nat} {j : Int} (hit : s.onGrid? j ≠ none) (le : j ≤ k) (lt : k < j + steps) :
    s.onGrid? (s.search steps k).exponent = some (s.search steps k).coefficient ∧
      ∀ i, (s.search steps k).exponent < i → i ≤ k → s.onGrid? i = none := by
  induction steps generalizing k with
  | zero => omega
  | succ steps ih =>
    cases first : s.onGrid? k with
    | some n =>
      have found : s.search (steps + 1) k = ⟨n, k⟩ := by simp only [search, first]
      rw [found]
      exact ⟨first, fun i above le => absurd above (Int.not_lt.mpr le)⟩
    | none =>
      have next : s.search (steps + 1) k = s.search steps (k - 1) := by simp only [search, first]
      have other : j ≠ k := fun same => hit (same ▸ first)
      obtain ⟨found, missed⟩ := ih (k := k - 1) (by omega) (by omega)
      rw [next]
      refine ⟨found, fun i above le => ?_⟩
      rcases Int.lt_or_eq_of_le le with lower | rfl
      · exact missed i above (by omega)
      · exact first

theorem order_bounds (narrow : s.Narrow) :
    (10 : ℚ) ^ (s.order - 1) * s.denominator ≤ s.value ∧ (s.value : ℚ) ≤ 10 ^ s.order * s.denominator := by
  unfold order
  split
  · rename_i le
    exact quotient_bounds narrow.denominator_pos le
  · rename_i gt
    obtain ⟨lower, upper⟩ := quotient_bounds (Nat.zero_lt_of_lt narrow.below) (Nat.le_of_not_le gt)
    generalize ((Nat.toDigits 10 (s.denominator / s.value)).length : Int) = length at *
    have down : (1 - length - 1 : Int) = -length := by omega
    have up : (1 - length : Int) = -(length - 1) := by omega
    rw [down, up, zpow_neg, zpow_neg]
    exact ⟨(inv_mul_le_iff₀ (by positivity)).mpr upper, (le_inv_mul_iff₀ (by positivity)).mpr lower⟩

theorem hit_below_order (narrow : s.Narrow) : s.onGrid? (s.order - 18) ≠ none := by
  apply onGrid?_ne_none narrow
  have lower := (order_bounds narrow).1
  have fine : (s.low * 10 ^ 17 + s.value : ℚ) ≤ s.value * 10 ^ 17 := by exact_mod_cast narrow.fine
  have step : (10 : ℚ) ^ (s.order - 18) = 10 ^ (s.order - 1) / 10 ^ 17 := by
    rw [show s.order - 18 = (s.order - 1) - 17 by omega, zpow_sub₀ (by norm_num)]
    norm_num
  rw [step, div_mul_eq_mul_div, ← le_sub_iff_add_le', div_le_iff₀ (by norm_num)]
  linarith

theorem Holds.ends (holds : s.Holds d) :
    s.low ≤ d.toRat * s.denominator ∧ d.toRat * s.denominator ≤ s.high := by
  unfold Holds at holds
  split at holds
  · exact holds
  · exact ⟨holds.1.le, holds.2.le⟩

theorem Holds.coefficient_pos (positive : 0 < s.low) (holds : s.Holds d) : 0 < d.coefficient := by
  rw [Nat.pos_iff_ne_zero]
  intro zero
  have low := holds.ends.1
  rw [toRat, zero, Nat.cast_zero, zero_mul, zero_mul] at low
  exact absurd (Nat.cast_pos.mpr positive) (not_lt.mpr low)

theorem Holds.exponent_le_order (narrow : s.Narrow) (holds : s.Holds d) : d.exponent ≤ s.order := by
  by_contra beyond
  have large : (10 : ℚ) * 10 ^ s.order ≤ d.toRat := by
    calc (10 : ℚ) * 10 ^ s.order = 10 ^ (s.order + 1) := by rw [zpow_add_one₀ (by norm_num), mul_comm]
      _ ≤ 10 ^ d.exponent := zpow_le_zpow_right₀ (by norm_num) (by omega)
      _ ≤ d.toRat :=
        le_mul_of_one_le_left (by positivity) (by exact_mod_cast holds.coefficient_pos narrow.low_pos)
  have further := mul_le_mul_of_nonneg_right large (Nat.cast_nonneg s.denominator)
  have upper := (order_bounds narrow).2
  have below : (s.low : ℚ) < s.value := Nat.cast_lt.mpr narrow.below
  have coarse : (s.high : ℚ) < 10 * s.low := by exact_mod_cast narrow.coarse
  linarith [holds.ends.2]

-- A decimal in the span, on the coarsest grid that has one, and of those on that grid the nearest to the double.
structure Coarsest (s : Span) (d : Decimal) : Prop where
  holds : s.Holds d
  exponent_le : ∀ e, s.Holds e → e.exponent ≤ d.exponent
  nearest : ∀ n, s.Holds ⟨n, d.exponent⟩ → s.distance d ≤ s.distance ⟨n, d.exponent⟩

theorem search_coarsest (narrow : s.Narrow) : s.Coarsest (s.search 20 s.order) := by
  have inside : s.order < s.order - 18 + (20 : Nat) := by omega
  obtain ⟨found, missed⟩ := search_found (hit_below_order narrow) (by omega) inside
  refine ⟨holds_of_onGrid? narrow.denominator_pos found, fun e holds => ?_, fun n => nearest_of_onGrid? narrow found⟩
  by_contra finer
  exact not_holds_of_missed narrow (missed _ (not_le.mp finer) (holds.exponent_le_order narrow)) holds

theorem Holds.between (low : s.Holds d) (high : s.Holds e) {x : Decimal} (above : d.toRat ≤ x.toRat)
    (below : x.toRat ≤ e.toRat) : s.Holds x := by
  have left := mul_le_mul_of_nonneg_right above (Nat.cast_nonneg (α := ℚ) s.denominator)
  have right := mul_le_mul_of_nonneg_right below (Nat.cast_nonneg (α := ℚ) s.denominator)
  unfold Holds at *
  split at low
  · simp only [*, if_true] at high ⊢
    exact ⟨low.1.trans left, right.trans high.2⟩
  · simp only [*] at high ⊢
    exact ⟨low.1.trans_le left, right.trans_lt high.2⟩

theorem Coarsest.length_le (coarsest : s.Coarsest d) (holds : s.Holds e) :
    (Nat.toDigits 10 d.coefficient).length ≤ (Nat.toDigits 10 e.coefficient).length := by
  have some := Nat.length_toDigits_pos (b := 10) (n := e.coefficient)
  by_contra fewer
  obtain ⟨places, length⟩ : ∃ places, (Nat.toDigits 10 d.coefficient).length = places + 1 :=
    Nat.exists_eq_add_one.mpr (Nat.zero_lt_of_lt (not_le.mp fewer))
  have many : 10 ^ places ≤ d.coefficient :=
    Nat.not_lt.mp (mt (Nat.length_toDigits_le_iff (by decide) (by omega)).mpr (by omega))
  have few : e.coefficient < 10 ^ places := (Nat.length_toDigits_le_iff (by decide) (by omega)).mp (by omega)
  have power : toRat ⟨1, places + d.exponent⟩ = 10 ^ places * 10 ^ d.exponent := by
    rw [toRat, Nat.cast_one, one_mul, zpow_add₀ (by norm_num), zpow_natCast]
  -- With fewer digits in the other one, a power of ten on a coarser grid would lie between the two.
  have between : s.Holds ⟨1, places + d.exponent⟩ := by
    refine holds.between coarsest.holds ?_ ?_
    · rw [power, toRat]
      gcongr
      · exact_mod_cast few.le
      · norm_num
      · exact coarsest.exponent_le e holds
    · rw [power, toRat]
      gcongr
      exact_mod_cast many
  have le := coarsest.exponent_le _ between
  dsimp only at le
  omega

end Span

theorem span_narrow {b : Binary} (positive : 0 < b.significand) (bounded : b.significand < 2 ^ 53) :
    b.span.Narrow := by
  have grows : 0 < Nat.pow 2 (b.exponent - 2).toNat := Nat.pow_pos (by decide)
  unfold Binary.span
  dsimp only
  generalize Nat.pow 2 (b.exponent - 2).toNat = scale at *
  generalize chosen : (if b.significand = Nat.pow 2 52 ∧ b.exponent ≠ -1074 then 1 else 2) = below
  have either : below = 1 ∨ below = 2 := by
    rw [← chosen]
    split <;> simp
  constructor
  · exact Nat.pow_pos (by decide)
  · exact Nat.mul_pos (by omega) grows
  · exact Nat.mul_lt_mul_of_pos_right (by omega) grows
  · exact Nat.mul_lt_mul_of_pos_right (by omega) grows
  · dsimp only
    rw [← Nat.mul_assoc]
    exact Nat.mul_lt_mul_of_pos_right (by omega) grows
  · dsimp only
    have fine : (4 * b.significand - below) * 10 ^ 17 + 4 * b.significand ≤ 4 * b.significand * 10 ^ 17 := by omega
    calc (4 * b.significand - below) * scale * 10 ^ 17 + 4 * b.significand * scale
        = ((4 * b.significand - below) * 10 ^ 17 + 4 * b.significand) * scale := by ring
      _ ≤ 4 * b.significand * 10 ^ 17 * scale := Nat.mul_le_mul_right scale fine
      _ = 4 * b.significand * scale * 10 ^ 17 := by ring

theorem shortest_coarsest {b : Binary} (positive : 0 < b.significand) (bounded : b.significand < 2 ^ 53) :
    b.span.Coarsest (shortest b) := Span.search_coarsest (span_narrow positive bounded)

-- The one lies halfway to the next double, and the other stands for the least of them.
example : shortest (.ofBits 0x44B52D02C7E14AF6) = ⟨1, 23⟩ := by decide +kernel
example : shortest (.ofBits 1) = ⟨5, -324⟩ := by decide +kernel

end Criteria.Decimal
