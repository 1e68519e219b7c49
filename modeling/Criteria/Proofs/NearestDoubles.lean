import Criteria.Proofs.ShortestDecimals

namespace Criteria.Decimal

namespace Binary
variable {b c : Binary}

def toRat (b : Binary) : ℚ := b.significand * 2 ^ b.exponent

-- Of the doubles, those that are not negative, as if there were no greatest one.
structure Double (b : Binary) : Prop where
  bounded : b.significand < 2 ^ 53
  least : -1074 ≤ b.exponent
  normal : b.exponent = -1074 ∨ 2 ^ 52 ≤ b.significand

-- What is written so is read as the double: no other one is nearer, and none is as near unless this one is even.
def Rounds (b : Binary) (x : ℚ) : Prop :=
  ∀ c : Binary, c.Double → c.toRat ≠ b.toRat →
    |x - b.toRat| < |x - c.toRat| ∨ |x - b.toRat| = |x - c.toRat| ∧ b.significand % 2 = 0

theorem rounds_toRat (b : Binary) : b.Rounds b.toRat := by
  intro c _ apart
  left
  rw [sub_self, abs_zero, abs_pos]
  exact sub_ne_zero.mpr apart.symm

def quarter (b : Binary) : ℚ := 2 ^ (b.exponent - 2)

def below (b : Binary) : Nat := if b.significand = Nat.pow 2 52 ∧ b.exponent ≠ -1074 then 1 else 2

theorem quarter_pos (b : Binary) : 0 < b.quarter := zpow_pos (by norm_num) _

theorem unit_eq (b : Binary) : (2 : ℚ) ^ b.exponent = 4 * b.quarter := by
  rw [quarter, zpow_sub₀ (by norm_num)]
  norm_num
  ring

theorem toRat_eq (b : Binary) : b.toRat = 4 * b.significand * b.quarter := by
  rw [toRat, unit_eq]
  ring

theorem below_pos_le (b : Binary) : 0 < b.below ∧ b.below ≤ 2 := by
  unfold below
  split <;> decide

theorem Double.gap_of_finer (double : b.Double) (other : c.Double) (finer : c.exponent < b.exponent) :
    c.toRat + 2 * b.below * b.quarter ≤ b.toRat := by
  have unit := b.quarter_pos
  have normal : b.exponent ≠ -1074 := by
    have := other.least
    omega
  have large := double.normal.resolve_left normal
  have room : 2 * b.below + 4 * 2 ^ 52 ≤ 4 * b.significand + 2 := by
    unfold below
    split
    · omega
    · rename_i larger
      have : b.significand ≠ 2 ^ 52 := fun same => larger ⟨same, normal⟩
      omega
  -- On a finer grid the doubles end below 2 ^ 53 of its units, each of which is half a unit of this grid at most.
  have half : (2 : ℚ) ^ c.exponent ≤ 2 * b.quarter := by
    calc (2 : ℚ) ^ c.exponent ≤ 2 ^ (b.exponent - 2 + 1) := zpow_le_zpow_right₀ (by norm_num) (by omega)
      _ = 2 * b.quarter := by rw [zpow_add_one₀ (by norm_num), mul_comm, quarter]
  have bounded : (c.significand : ℚ) + 1 ≤ 2 ^ 53 := by exact_mod_cast other.bounded
  have scaled : (2 * b.below + 4 * 2 ^ 52 : ℚ) ≤ 4 * b.significand + 2 := by exact_mod_cast room
  calc c.toRat + 2 * b.below * b.quarter
      ≤ c.significand * (2 * b.quarter) + 2 * b.below * b.quarter := by
        unfold toRat
        gcongr
    _ = ((c.significand + 1) * 2 + 2 * b.below - 2) * b.quarter := by ring
    _ ≤ (2 ^ 53 * 2 + 2 * b.below - 2) * b.quarter := by gcongr
    _ ≤ 4 * b.significand * b.quarter := by
        gcongr
        linarith
    _ = b.toRat := b.toRat_eq.symm

theorem gap_of_coarser (apart : c.toRat ≠ b.toRat) (coarser : b.exponent ≤ c.exponent) :
    b.toRat + 4 * b.quarter ≤ c.toRat ∨ c.toRat + 4 * b.quarter ≤ b.toRat := by
  have unit := b.quarter_pos
  obtain ⟨n, whole⟩ : ∃ n : Nat, c.toRat = 4 * n * b.quarter := by
    refine ⟨c.significand * 2 ^ (c.exponent - b.exponent).toNat, ?_⟩
    have split : (2 : ℚ) ^ c.exponent = 2 ^ (c.exponent - b.exponent).toNat * (4 * b.quarter) := by
      rw [← unit_eq, ← zpow_natCast, ← zpow_add₀ (by norm_num), Int.toNat_of_nonneg (by omega), Int.sub_add_cancel]
    rw [toRat, split]
    push_cast
    ring
  rw [b.toRat_eq, whole] at apart ⊢
  rcases Nat.lt_trichotomy n b.significand with less | same | more
  · have step : (n : ℚ) + 1 ≤ b.significand := by exact_mod_cast less
    right
    nlinarith
  · exact absurd (by rw [same]) apart
  · have step : (b.significand : ℚ) + 1 ≤ n := by exact_mod_cast more
    left
    nlinarith

theorem Double.gap (double : b.Double) (other : c.Double) (apart : c.toRat ≠ b.toRat) :
    b.toRat + 4 * b.quarter ≤ c.toRat ∨ c.toRat + 2 * b.below * b.quarter ≤ b.toRat := by
  rcases Int.lt_or_le c.exponent b.exponent with finer | coarser
  · exact .inr (double.gap_of_finer other finer)
  · rcases gap_of_coarser apart coarser with above | under
    · exact .inl above
    · have few : (b.below : ℚ) ≤ 2 := by exact_mod_cast b.below_pos_le.2
      have unit := b.quarter_pos
      right
      nlinarith

theorem ofBits_double (bits : UInt64) : (ofBits bits).Double := by
  have fraction : bits.toNat % 2 ^ 52 < 2 ^ 52 := Nat.mod_lt _ (by decide)
  unfold ofBits
  dsimp only
  split
  · exact ⟨Nat.lt_trans fraction (by decide), Int.le_refl _, .inl rfl⟩
  · refine ⟨?_, ?_, .inr (Nat.le_add_left ..)⟩
    · change bits.toNat % 2 ^ 52 + 2 ^ 52 < 2 ^ 53
      omega
    · dsimp only
      omega

theorem span_ends (b : Binary) (positive : 0 < b.significand) :
    (b.span.low : ℚ) = (b.toRat - b.below * b.quarter) * b.span.denominator ∧
      (b.span.high : ℚ) = (b.toRat + 2 * b.quarter) * b.span.denominator := by
  have scale : ((Nat.pow 2 (b.exponent - 2).toNat : Nat) : ℚ) =
      b.quarter * (Nat.pow 2 (2 - b.exponent).toNat : Nat) := by
    unfold quarter
    rw [show (2 - b.exponent : Int) = -(b.exponent - 2) by omega]
    obtain ⟨n, same | same⟩ := (b.exponent - 2).eq_nat_or_neg <;> simp [same]
  have few : b.below ≤ 4 * b.significand := by
    have := b.below_pos_le.2
    omega
  constructor
  · change (((4 * b.significand - b.below) * Nat.pow 2 (b.exponent - 2).toNat : Nat) : ℚ) =
      _ * ((Nat.pow 2 (2 - b.exponent).toNat : Nat) : ℚ)
    rw [Nat.cast_mul, Nat.cast_sub few, scale, toRat_eq]
    push_cast
    ring
  · change (((4 * b.significand + 2) * Nat.pow 2 (b.exponent - 2).toNat : Nat) : ℚ) =
      _ * ((Nat.pow 2 (2 - b.exponent).toNat : Nat) : ℚ)
    rw [Nat.cast_mul, scale, toRat_eq]
    push_cast
    ring

end Binary

theorem abs_sub_le_of_side {x b c : ℚ} (side : 2 * x ≤ b + c ∧ b ≤ c ∨ b + c ≤ 2 * x ∧ c ≤ b) :
    |x - b| ≤ |x - c| := by
  rcases side with ⟨half, le⟩ | ⟨half, le⟩
  · rw [abs_of_nonpos (by linarith : x - c ≤ 0)]
    exact abs_le.mpr ⟨by linarith, by linarith⟩
  · rw [abs_of_nonneg (by linarith : 0 ≤ x - c)]
    exact abs_le.mpr ⟨by linarith, by linarith⟩

theorem abs_sub_lt_of_side {x b c : ℚ} (side : 2 * x < b + c ∧ b < c ∨ b + c < 2 * x ∧ c < b) :
    |x - b| < |x - c| := by
  rcases side with ⟨half, lt⟩ | ⟨half, lt⟩
  · rw [abs_of_nonpos (by linarith : x - c ≤ 0)]
    exact abs_lt.mpr ⟨by linarith, by linarith⟩
  · rw [abs_of_nonneg (by linarith : 0 ≤ x - c)]
    exact abs_lt.mpr ⟨by linarith, by linarith⟩

theorem Span.Holds.rounds {b : Binary} {d : Decimal} (holds : b.span.Holds d) (positive : 0 < b.significand)
    (double : b.Double) : b.Rounds d.toRat := by
  intro c other apart
  obtain ⟨low, high⟩ := b.span_ends positive
  have parted : (0 : ℚ) < b.span.denominator := Nat.cast_pos.mpr (span_narrow positive double.bounded).denominator_pos
  have unit := b.quarter_pos
  have reach : 0 < b.below * b.quarter := mul_pos (Nat.cast_pos.mpr b.below_pos_le.1) unit
  have gap := double.gap other apart
  unfold Span.Holds at holds
  rw [low, high, mul_le_mul_iff_left₀ parted, mul_le_mul_iff_left₀ parted, mul_lt_mul_iff_left₀ parted,
    mul_lt_mul_iff_left₀ parted] at holds
  split at holds
  · rename_i closed
    have even : b.significand % 2 = 0 := beq_iff_eq.mp closed
    have le : |d.toRat - b.toRat| ≤ |d.toRat - c.toRat| := by
      apply abs_sub_le_of_side
      rcases gap with above | under
      · exact .inl ⟨by linarith, by linarith⟩
      · exact .inr ⟨by linarith, by linarith⟩
    exact le.lt_or_eq.imp id fun same => ⟨same, even⟩
  · left
    apply abs_sub_lt_of_side
    rcases gap with above | under
    · exact .inl ⟨by linarith, by linarith⟩
    · exact .inr ⟨by linarith, by linarith⟩

end Criteria.Decimal
