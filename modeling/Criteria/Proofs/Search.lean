import Criteria.Proofs.Counter

namespace Criteria

-- From a counter on: how many numbers are tried, the id that is found, and what the counter is raised to.
inductive Search (taken : String → Bool) : UInt64 → Nat → String → UInt64 → Prop where
  | found {n : UInt64} (room : n.toNat + 1 < 2 ^ 64) (free : taken (numberedId n) = false) :
      Search taken n 1 (numberedId n) (n + 1)
  | passed {n next : UInt64} {tries : Nat} {id : String} (room : n.toNat + 1 < 2 ^ 64)
      (held : taken (numberedId n) = true) (rest : Search taken (n + 1) tries id next) :
      Search taken n (tries + 1) id next

namespace Search
variable {taken : String → Bool} {n next next' : UInt64} {tries tries' : Nat} {id id' : String}

theorem unique (one : Search taken n tries id next) (other : Search taken n tries' id' next') :
    tries = tries' ∧ id = id' ∧ next = next' := by
  induction one generalizing tries' with
  | found room free =>
    cases other with
    | found => exact ⟨rfl, rfl, rfl⟩
    | passed _ held _ =>
      rw [free] at held
      cases held
  | passed room held rest ih =>
    cases other with
    | found _ free =>
      rw [held] at free
      cases free
    | passed _ _ rest' =>
      obtain ⟨rfl, rfl, rfl⟩ := ih rest'
      exact ⟨rfl, rfl, rfl⟩

theorem exists_free (search : Search taken n tries id next) :
    ∃ m, n.toNat ≤ m ∧ m + 1 < 2 ^ 64 ∧ taken ("condition-" ++ m.repr) = false := by
  induction search with
  | @found n room free => exact ⟨n.toNat, Nat.le_refl _, room, free⟩
  | passed room held rest ih =>
    obtain ⟨m, ahead, small, free⟩ := ih
    rw [toNat_raised room] at ahead
    exact ⟨m, Nat.le_of_succ_le ahead, small, free⟩

theorem of_firstFree {bound : Nat} (free : taken (numberedId (firstFree taken bound n)) = false)
    (room : n.toNat + skips taken bound n + 1 < 2 ^ 64) :
    Search taken n (skips taken bound n + 1) (numberedId (firstFree taken bound n)) (firstFree taken bound n + 1) := by
  induction bound generalizing n with
  | zero => exact .found room free
  | succ bound ih =>
    cases here : taken (numberedId n) with
    | false =>
      simp only [firstFree, skips, here, Bool.false_eq_true, if_false] at free room ⊢
      exact .found room here
    | true =>
      simp only [firstFree, skips, here, if_true] at free room ⊢
      have fits : n.toNat + 1 < 2 ^ 64 := by omega
      have raised := toNat_raised fits
      exact .passed fits here (ih free (by omega))

end Search

namespace Panel
variable {p : Panel}

def HasRoom (p : Panel) : Prop :=
  ∃ m, p.next.toNat ≤ m ∧ m + 1 < 2 ^ 64 ∧ ∀ c ∈ p.conditions, c.id ≠ "condition-" ++ m.repr

structure FirstFree (p : Panel) (m : Nat) : Prop where
  ahead : p.next.toNat ≤ m
  free : ∀ c ∈ p.conditions, c.id ≠ "condition-" ++ m.repr
  first : ∀ j, p.next.toNat ≤ j → j < m → ∃ c ∈ p.conditions, c.id = "condition-" ++ j.repr

theorem numberedId_offset {i : Nat} (small : p.next.toNat + i < 2 ^ 64) :
    numberedId (p.next + .ofNat i) = "condition-" ++ (p.next.toNat + i).repr := by
  rw [numberedId, toNat_offset small]

theorem HasRoom.fits (room : p.HasRoom) : p.Fits .add := by
  obtain ⟨m, ahead, small, free⟩ := room
  obtain ⟨i, rfl⟩ := Nat.exists_eq_add_of_le ahead
  have stops : p.skipped ≤ i := by
    refine Nat.le_of_not_lt fun passed => ?_
    obtain ⟨c, member, named⟩ := contains_iff.mp (contains_of_lt_skipped passed)
    exact free c member (named.trans (numberedId_offset (by omega)))
  change p.next.toNat + p.skipped + 1 < 2 ^ 64
  omega

theorem firstFree_of_fits (fits : p.Fits .add) : p.FirstFree p.newNumber.toNat where
  ahead := UInt64.le_iff_toNat_le.mp (next_le_newNumber fits)
  free := not_contains_iff.mp (newNumber_free_of_fits fits)
  first j low less := by
    obtain ⟨i, rfl⟩ := Nat.exists_eq_add_of_le low
    rw [toNat_newNumber fits] at less
    have small : p.next.toNat + p.skipped + 1 < 2 ^ 64 := fits
    rw [← numberedId_offset (by omega)]
    exact contains_iff.mp (contains_of_lt_skipped (by omega))

theorem search_add (fits : p.Fits .add) :
    Search p.contains p.next (p.skipped + 1) (numberedId p.newNumber) (p.newNumber + 1) := by
  have free := newNumber_free_of_fits fits
  have whole : firstFree p.contains p.size p.next = p.newNumber := firstFree_eq ..
  rw [← whole] at free ⊢
  exact .of_firstFree free fits

theorem search_ends_iff : (∃ tries id next, Search p.contains p.next tries id next) ↔ p.HasRoom := by
  constructor
  · rintro ⟨tries, id, next, search⟩
    obtain ⟨m, ahead, small, free⟩ := search.exists_free
    exact ⟨m, ahead, small, not_contains_iff.mp free⟩
  · exact fun room => ⟨_, _, _, search_add room.fits⟩

theorem hasRoom_of_size (far : p.next.toNat + p.size + 1 < 2 ^ 64) : p.HasRoom := by
  have few := p.skipped_le
  have fits : p.Fits .add := by
    change p.next.toNat + p.skipped + 1 < 2 ^ 64
    omega
  have first := firstFree_of_fits fits
  refine ⟨p.newNumber.toNat, first.ahead, ?_, first.free⟩
  rw [toNat_newNumber fits]
  exact fits

end Panel

theorem add_at_firstFree (p : Panel) :
    (p.next.toNat + p.size + 1 < 2 ^ 64 → p.HasRoom) ∧
    ((∃ tries id next, Search p.contains p.next tries id next) ↔ p.HasRoom) ∧
    (p.HasRoom → ∃ m, p.FirstFree m ∧ m + 1 < 2 ^ 64 ∧ m - p.next.toNat + 1 ≤ p.size + 1 ∧
      (∀ tries id next, Search p.contains p.next tries id next ↔
        tries = m - p.next.toNat + 1 ∧ id = "condition-" ++ m.repr ∧ next = .ofNat (m + 1)) ∧
      p.add = ("condition-" ++ m.repr,
        { p with
          conditions := p.conditions ++ [.blank ("condition-" ++ m.repr)],
          next := .ofNat (m + 1) })) := by
  refine ⟨Panel.hasRoom_of_size, Panel.search_ends_iff, fun room => ?_⟩
  have fits := room.fits
  have number := Panel.toNat_newNumber fits
  have small : p.next.toNat + p.skipped + 1 < 2 ^ 64 := fits
  have few := p.skipped_le
  have raised : p.newNumber + 1 = .ofNat (p.newNumber.toNat + 1) := by
    rw [UInt64.ofNat_add, UInt64.ofNat_toNat]
    rfl
  refine ⟨p.newNumber.toNat, Panel.firstFree_of_fits fits, by omega, by omega, fun tries id next => ?_, ?_⟩
  · have search := Panel.search_add fits
    rw [raised] at search
    have counted : p.newNumber.toNat - p.next.toNat + 1 = p.skipped + 1 := by omega
    rw [counted]
    constructor
    · exact fun other => other.unique search
    · rintro ⟨rfl, rfl, rfl⟩
      exact search
  · rw [Panel.add_eq, raised]
    rfl

-- One id is there twice, and one has a number behind the counter.
def crowded : Panel :=
  ⟨.builtIn, [.blank "condition-2", .blank "condition-3", .blank "x", .blank "condition-2", .blank "condition-1"], .or, 2⟩

theorem add_at_firstFree_crowded :
    crowded.next.toNat + crowded.size + 1 < 2 ^ 64 ∧ crowded.HasRoom ∧ crowded.FirstFree 4 ∧
    Search crowded.contains 2 3 "condition-4" 5 ∧ crowded.add.1 = "condition-4" ∧
    crowded.add.2.conditions = crowded.conditions ++ [.blank "condition-4"] := by
  obtain ⟨enough, _, found⟩ := add_at_firstFree crowded
  have far : crowded.next.toNat + crowded.size + 1 < 2 ^ 64 := by decide
  obtain ⟨m, first, _, _, exact, whole⟩ := found (enough far)
  have named : crowded.add.1 = "condition-" ++ (4 : Nat).repr := by decide +kernel
  obtain rfl : m = 4 := by
    rw [whole] at named
    exact repr_inj.mp ((String.append_right_inj _).mp named)
  refine ⟨far, enough far, first, (exact 3 _ _).mpr ⟨rfl, rfl, rfl⟩, named, ?_⟩
  rw [whole]
  rfl

end Criteria
