import Criteria.Proofs.NumberedIds
import Criteria.Proofs.Runs
import Mathlib.Order.Interval.Finset.Nat

namespace Criteria

theorem toNat_raised {n : UInt64} (room : n.toNat + 1 < 2 ^ 64) : (n + 1).toNat = n.toNat + 1 := by
  rw [UInt64.toNat_add]
  exact Nat.mod_eq_of_lt room

namespace Panel

-- The counter can be raised past every number that is tried for a new id.
def Fits (p : Panel) : Command → Prop
  | .add => p.next.toNat + p.skipped + 1 < 2 ^ 64
  | _ => True

theorem toNat_offset {p : Panel} {i : Nat} (small : p.next.toNat + i < 2 ^ 64) :
    (p.next + .ofNat i).toNat = p.next.toNat + i := by
  rw [UInt64.toNat_add, UInt64.toNat_ofNat', Nat.add_mod_mod, Nat.mod_eq_of_lt small]

theorem toNat_newNumber {p : Panel} (fits : p.Fits .add) : p.newNumber.toNat = p.next.toNat + p.skipped :=
  toNat_offset (Nat.lt_of_succ_lt fits)

theorem toNat_next_add {p : Panel} (fits : p.Fits .add) : p.add.2.next.toNat = p.newNumber.toNat + 1 := by
  have room : p.newNumber.toNat + 1 < 2 ^ 64 := by rw [toNat_newNumber fits]; exact fits
  rw [add_eq]
  exact toNat_raised room

theorem next_le_newNumber {p : Panel} (fits : p.Fits .add) : p.next ≤ p.newNumber := by
  rw [UInt64.le_iff_toNat_le, toNat_newNumber fits]
  exact Nat.le_add_right ..

theorem newNumber_lt_next {p : Panel} (fits : p.Fits .add) : p.newNumber < p.add.2.next := by
  rw [UInt64.lt_iff_toNat_lt, toNat_next_add fits]
  exact Nat.lt_succ_self _

theorem fst_add (p : Panel) : p.add.1 = numberedId p.newNumber := by rw [add_eq]

theorem newNumber_free_of_fits {p : Panel} (fits : p.Fits .add) : p.contains (numberedId p.newNumber) = false := by
  have small : p.next.toNat + p.skipped + 1 < 2 ^ 64 := fits
  exact newNumber_free (by omega)

-- The steps taken so far pay for the numbers that the counter has passed and for those ahead of it that are taken.
structure PaidWith (steps : Nat) (p : Panel) : Prop where
  started : 1 ≤ p.next.toNat
  paid : ∃ ahead : Finset Nat,
    (∀ m, p.next ≤ m → p.contains (numberedId m) = true → m.toNat ∈ ahead) ∧ p.next.toNat + ahead.card ≤ 1 + steps

theorem PaidWith.weaker {steps : Nat} {p : Panel} (paid : p.PaidWith steps) : p.PaidWith (steps + 1) := by
  obtain ⟨started, ahead, taken, enough⟩ := paid
  exact ⟨started, ahead, taken, by omega⟩

theorem new_paidWith (catalog : Catalog) : (new catalog).PaidWith 0 :=
  ⟨Nat.le_refl _, ∅, by simp [new, contains], by simp [new]⟩

theorem passed_subset {p : Panel} {ahead : Finset Nat}
    (taken : ∀ m, p.next ≤ m → p.contains (numberedId m) = true → m.toNat ∈ ahead) {n : Nat} (passed : n ≤ p.skipped)
    (small : p.next.toNat + n ≤ 2 ^ 64) : Finset.Ico p.next.toNat (p.next.toNat + n) ⊆ ahead := by
  intro k member
  obtain ⟨low, high⟩ := Finset.mem_Ico.mp member
  obtain ⟨i, rfl⟩ := Nat.exists_eq_add_of_le low
  have number : (p.next + .ofNat i).toNat = p.next.toNat + i := toNat_offset (by omega)
  rw [← number]
  refine taken _ ?_ (contains_of_lt_skipped (by omega))
  rw [UInt64.le_iff_toNat_le, number]
  exact low

theorem PaidWith.fits {steps : Nat} {p : Panel} (paid : p.PaidWith steps) (few : steps < 2 ^ 64 - 2) (c : Command) :
    p.Fits c := by
  cases c with
  | add =>
    obtain ⟨started, ahead, taken, enough⟩ := paid
    refine Nat.lt_of_not_le fun overflow => ?_
    have below := p.next.toNat_lt
    -- The numbers up to the greatest one would all have been paid for.
    have passed := Finset.card_le_card (passed_subset taken (n := 2 ^ 64 - 1 - p.next.toNat) (by omega) (by omega))
    rw [Nat.card_Ico] at passed
    omega
  | _ => trivial

theorem PaidWith.add {steps : Nat} {p : Panel} (paid : p.PaidWith steps) (fits : p.Fits .add) :
    p.add.2.PaidWith (steps + 1) := by
  obtain ⟨started, ahead, taken, enough⟩ := paid
  have number := toNat_newNumber fits
  have next := toNat_next_add fits
  have small : p.next.toNat + p.skipped + 1 < 2 ^ 64 := fits
  have passed := passed_subset taken (Nat.le_refl p.skipped) (by omega)
  -- The numbers passed over were paid for as taken ones ahead; now they are paid for as passed ones.
  refine ⟨by omega, ahead \ Finset.Ico p.next.toNat (p.next.toNat + p.skipped), fun m far held => ?_, ?_⟩
  · rw [UInt64.le_iff_toNat_le] at far
    obtain ⟨c, member, named⟩ := contains_iff.mp held
    rw [conditions_add] at member
    rcases List.mem_append.mp member with old | new
    · have near : p.next ≤ m := by rw [UInt64.le_iff_toNat_le]; omega
      refine Finset.mem_sdiff.mpr ⟨taken m near (contains_iff.mpr ⟨c, old, named⟩), fun inside => ?_⟩
      have high := (Finset.mem_Ico.mp inside).2
      omega
    · rw [List.mem_singleton.mp new, Condition.blank, fst_add, numberedId_inj] at named
      rw [← named] at far
      omega
  · have counted := Finset.card_le_card passed
    rw [Finset.card_sdiff_of_subset passed]
    rw [Nat.card_Ico] at counted ⊢
    omega

theorem PaidWith.other {steps : Nat} {p q : Panel} {c : Command} {r : Reply} (paid : p.PaidWith steps)
    (done : p.Performed c r q) (other : c ≠ .add) : q.PaidWith (steps + 1) := by
  obtain ⟨started, ahead, taken, enough⟩ := paid
  obtain ⟨new, newcomer⟩ := done.newcomer
  have next := done.next_eq other
  have held (m : UInt64) (far : q.next ≤ m) (held : q.contains (numberedId m) = true) :
      m.toNat ∈ ahead ∨ numberedId m = new := by
    obtain ⟨d, member, named⟩ := contains_iff.mp held
    rcases newcomer d member with old | last
    · exact .inl (taken m (next ▸ far) (contains_iff.mpr ⟨d, old, named⟩))
    · exact .inr (named.symm.trans last)
  -- An id without a number is never in the way of the counter.
  by_cases numbered : ∃ n, new = numberedId n
  · obtain ⟨n, rfl⟩ := numbered
    refine ⟨next ▸ started, insert n.toNat ahead, fun m far present => ?_, ?_⟩
    · rcases held m far present with old | last
      · exact Finset.mem_insert_of_mem old
      · rw [numberedId_inj.mp last]
        exact Finset.mem_insert_self ..
    · have grown := Finset.card_insert_le n.toNat ahead
      rw [next]
      omega
  · refine ⟨next ▸ started, ahead, fun m far present => ?_, by rw [next]; omega⟩
    exact (held m far present).resolve_right fun last => numbered ⟨m, last.symm⟩

theorem Performed.paidWith {steps : Nat} {p q : Panel} {c : Command} {r : Reply} (done : p.Performed c r q)
    (fits : p.Fits c) (paid : p.PaidWith steps) : q.PaidWith (steps + 1) := by
  by_cases adds : c = .add
  · subst adds
    cases done
    exact paid.add fits
  · exact paid.other done adds

end Panel

namespace Session

theorem start_paidWith (catalog : Catalog) : (start catalog).Both (Panel.PaidWith 0) :=
  ⟨Panel.new_paidWith catalog, by simp [start]⟩

theorem run_paidWith (catalog : Catalog) {steps : List Step} (fits : (start catalog).Throughout Panel.Fits steps) :
    ((start catalog).run steps).panel.PaidWith steps.length := by
  have both := run_both (fun n p => p.PaidWith n) (fun _ _ paid => paid.weaker)
    (fun _ _ _ _ _ fits done paid => done.paidWith fits paid) 0 fits (start_paidWith catalog)
  rw [Nat.zero_add] at both
  exact both.1

theorem fits_of_short (catalog : Catalog) {steps : List Step} (short : steps.length < 2 ^ 64 - 1) :
    (start catalog).Throughout Panel.Fits steps :=
  throughout_of_both (fun n p => p.PaidWith n) (fun _ _ paid => paid.weaker)
    (fun _ _ _ _ _ fits done paid => done.paidWith fits paid) (fun _ _ c few paid => paid.fits few c) 0
    (by omega) (start_paidWith catalog)

end Session

theorem counter_bounded (catalog : Catalog) (steps : List Step) :
    ((Session.start catalog).run steps).panel.next.toNat ≤ 1 + steps.length ∧
    ((Session.start catalog).Throughout Panel.Fits steps →
      1 ≤ ((Session.start catalog).run steps).panel.next.toNat) ∧
    (steps.length < 2 ^ 64 - 1 → (Session.start catalog).Throughout Panel.Fits steps) := by
  refine ⟨?_, fun fits => (Session.run_paidWith catalog fits).started, Session.fits_of_short catalog⟩
  rcases Nat.lt_or_ge steps.length (2 ^ 64 - 1) with short | long
  · obtain ⟨_, ahead, _, enough⟩ := Session.run_paidWith catalog (Session.fits_of_short catalog short)
    omega
  · have small := ((Session.start catalog).run steps).panel.next.toNat_lt
    omega

-- The bound is reached where every step before brought in a number that is then passed over.
def numbersAhead : List Step := [
  .command (.push (.blank "condition-1")),
  .command (.push (.blank "condition-2")),
  .command .add]

theorem counter_bounded_numbersAhead :
    (Session.start .builtIn).Throughout Panel.Fits numbersAhead ∧
    ((Session.start .builtIn).run numbersAhead).panel.next.toNat = 1 + numbersAhead.length ∧
    1 ≤ ((Session.start .builtIn).run numbersAhead).panel.next.toNat ∧
    ((Session.start .builtIn).run numbersAhead).panel.next.toNat ≤ 1 + numbersAhead.length := by
  obtain ⟨bound, started, short⟩ := counter_bounded .builtIn numbersAhead
  have fits := short (by decide)
  exact ⟨fits, by decide +kernel, started fits, bound⟩

end Criteria
