import Criteria.Panel
import Mathlib.Algebra.Group.Nat.Defs

namespace Criteria

theorem repr_inj {m n : Nat} : m.repr = n.repr ↔ m = n := by
  refine ⟨fun same => ?_, fun same => by rw [same]⟩
  have digits : Nat.toDigits 10 m = Nat.toDigits 10 n := String.ofList_injective same
  rw [← Nat.ofDigitChars_toDigits (n := m) (b := 10) (by decide) (by decide), digits,
    Nat.ofDigitChars_toDigits (by decide) (by decide)]

theorem numberedId_inj {m n : UInt64} : numberedId m = numberedId n ↔ m = n := by
  rw [numberedId, numberedId, String.append_right_inj, repr_inj, UInt64.toNat_inj]

-- How many of the next `tries` numbers from `n` on are passed over.
def skips (taken : String → Bool) : Nat → UInt64 → Nat
  | 0, _ => 0
  | tries + 1, n => if taken (numberedId n) then skips taken tries (n + 1) + 1 else 0

variable {taken : String → Bool}

theorem firstFree_eq (tries : Nat) (n : UInt64) : firstFree taken tries n = n + .ofNat (skips taken tries n) := by
  induction tries generalizing n with
  | zero => simp [firstFree, skips]
  | succ tries ih =>
    unfold firstFree skips
    split
    · rw [ih, Nat.add_comm, UInt64.ofNat_add, ← UInt64.add_assoc]
      rfl
    · simp

theorem skips_le (tries : Nat) (n : UInt64) : skips taken tries n ≤ tries := by
  induction tries generalizing n with
  | zero => simp [skips]
  | succ tries ih =>
    unfold skips
    split
    · exact Nat.succ_le_succ (ih _)
    · exact Nat.zero_le _

theorem taken_of_lt_skips {tries i : Nat} {n : UInt64} (passed : i < skips taken tries n) :
    taken (numberedId (n + .ofNat i)) = true := by
  induction tries generalizing n i with
  | zero => simp [skips] at passed
  | succ tries ih =>
    unfold skips at passed
    split at passed
    · rename_i here
      cases i with
      | zero => simpa using here
      | succ i =>
        have later := ih (Nat.lt_of_succ_lt_succ passed)
        rwa [UInt64.add_assoc, show (1 : UInt64) = .ofNat 1 from rfl, ← UInt64.ofNat_add, Nat.add_comm 1 i] at later
    · simp at passed

theorem free_of_skips_lt {tries : Nat} {n : UInt64} (stopped : skips taken tries n < tries) :
    taken (numberedId (firstFree taken tries n)) = false := by
  induction tries generalizing n with
  | zero => simp at stopped
  | succ tries ih =>
    unfold skips at stopped
    unfold firstFree
    split at stopped
    · rename_i here
      rw [if_pos here]
      exact ih (Nat.lt_of_succ_lt_succ stopped)
    · rename_i here
      rw [if_neg here]
      simpa using here

namespace Panel

def skipped (p : Panel) : Nat := skips p.contains p.size p.next

def newNumber (p : Panel) : UInt64 := p.next + .ofNat p.skipped

theorem add_eq (p : Panel) : p.add = (numberedId p.newNumber,
    { p with conditions := p.conditions ++ [.blank (numberedId p.newNumber)], next := p.newNumber + 1 }) := by
  simp only [add, firstFree_eq]
  rfl

theorem skipped_le (p : Panel) : p.skipped ≤ p.size := skips_le p.size p.next

theorem contains_of_lt_skipped {p : Panel} {i : Nat} (passed : i < p.skipped) :
    p.contains (numberedId (p.next + .ofNat i)) = true := taken_of_lt_skips passed

theorem numberedId_offset_inj {n : UInt64} {i j : Nat} (small : i < 2 ^ 64) (smallToo : j < 2 ^ 64)
    (same : numberedId (n + .ofNat i) = numberedId (n + .ofNat j)) : i = j := by
  have offsets : UInt64.ofNat i = .ofNat j := (UInt64.add_right_inj n).mp (numberedId_inj.mp same)
  have numbers := congrArg UInt64.toNat offsets
  rwa [UInt64.toNat_ofNat_of_lt' small, UInt64.toNat_ofNat_of_lt' smallToo] at numbers

-- Taken ids with different numbers are those of different conditions.
theorem le_size_of_taken {p : Panel} {n : Nat} (few : n ≤ 2 ^ 64)
    (taken : ∀ i < n, p.contains (numberedId (p.next + .ofNat i)) = true) : n ≤ p.size := by
  have distinct : ((List.range n).map fun i => numberedId (p.next + .ofNat i)).Nodup := by
    refine List.pairwise_map.mpr (List.pairwise_lt_range.imp_of_mem fun {i j} first second less same => ?_)
    have small := List.mem_range.mp first
    have smallToo := List.mem_range.mp second
    exact Nat.ne_of_lt less (numberedId_offset_inj (by omega) (by omega) same)
  have held : ((List.range n).map fun i => numberedId (p.next + .ofNat i)) ⊆ p.conditions.map Condition.id := by
    intro id member
    obtain ⟨i, small, rfl⟩ := List.mem_map.mp member
    obtain ⟨c, held, named⟩ := contains_iff.mp (taken i (List.mem_range.mp small))
    exact List.mem_map.mpr ⟨c, held, named⟩
  simpa [size] using distinct.length_le_of_subset held

theorem newNumber_free {p : Panel} (few : p.skipped < 2 ^ 64) : p.contains (numberedId p.newNumber) = false := by
  rcases Nat.lt_or_ge p.skipped p.size with stopped | all
  · have free := free_of_skips_lt stopped
    rwa [firstFree_eq] at free
  · rw [Bool.eq_false_iff]
    intro taken
    -- With this number, one more would be taken than there are conditions.
    have every : ∀ i < p.skipped + 1, p.contains (numberedId (p.next + .ofNat i)) = true := by
      intro i small
      rcases Nat.lt_succ_iff_lt_or_eq.mp small with passed | rfl
      · exact contains_of_lt_skipped passed
      · exact taken
    have fits := le_size_of_taken few every
    omega

theorem skipped_lt_of_free {p : Panel} {n : UInt64} (free : p.contains (numberedId n) = false) :
    p.skipped < 2 ^ 64 := by
  have reached : p.next + .ofNat (n - p.next).toNat = n := by
    rw [UInt64.ofNat_toNat, UInt64.add_comm, UInt64.sub_add_cancel]
  refine Nat.lt_of_not_le fun many => ?_
  have passed : (n - p.next).toNat < p.skipped := Nat.lt_of_lt_of_le (UInt64.toNat_lt _) many
  have taken := contains_of_lt_skipped passed
  rw [reached, free] at taken
  cases taken

theorem exists_free_iff {p : Panel} : (∃ n, p.contains (numberedId n) = false) ↔ p.skipped < 2 ^ 64 :=
  ⟨fun found => found.elim fun _ free => skipped_lt_of_free free, fun few => ⟨_, newNumber_free few⟩⟩

end Panel
end Criteria
