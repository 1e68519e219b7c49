import Criteria.Proofs.Counter

namespace Criteria

theorem Panel.Performed.next_le {p q : Panel} {c : Command} {r : Reply} (done : p.Performed c r q) (fits : p.Fits c) :
    p.next ≤ q.next := by
  by_cases adds : c = .add
  · subst adds
    cases done
    exact UInt64.le_trans (next_le_newNumber fits) (UInt64.le_of_lt (newNumber_lt_next fits))
  · rw [done.next_eq adds]
    exact UInt64.le_refl _

namespace Session

def givenOut (s : Session) : List Step → List String
  | [] => []
  | x :: xs =>
    match (s.step x).1 with
    | .ok (.id id) => id :: (s.step x).2.givenOut xs
    | _ => (s.step x).2.givenOut xs

theorem step_add (s : Session) :
    s.step (.command .add) = (.ok (.id (numberedId s.panel.newNumber)), { s with panel := s.panel.add.2 }) := by
  rw [← Panel.fst_add]
  exact step_eq_iff.mpr (.performed .add)

theorem eq_add_of_reply {s : Session} {x : Step} {id : String} (reply : (s.step x).1 = .ok (.id id)) :
    x = .command .add := by
  rcases taken : s.step x with ⟨_, t⟩
  rw [taken] at reply
  cases reply
  cases step_eq_iff.mp taken with
  | performed done =>
    cases done
    rfl

theorem givenOut_add (s : Session) (xs : List Step) :
    s.givenOut (.command .add :: xs) = numberedId s.panel.newNumber :: (s.step (.command .add)).2.givenOut xs := by
  rw [givenOut, step_add]

theorem givenOut_other {s : Session} {x : Step} (other : x ≠ .command .add) (xs : List Step) :
    s.givenOut (x :: xs) = (s.step x).2.givenOut xs := by
  rw [givenOut]
  split
  · rename_i reply
    exact absurd (eq_add_of_reply reply) other
  · rfl

theorem next_step_le {s : Session} {x : Step} (kept : x ≠ .restore) (fits : ∀ c, x = .command c → s.panel.Fits c) :
    s.panel.next ≤ (s.step x).2.panel.next := by
  rcases taken : s.step x with ⟨reply, t⟩
  cases step_eq_iff.mp taken with
  | performed done => exact done.next_le (fits _ rfl)
  | restored copy => exact absurd rfl kept
  | unsaved nothing => exact absurd rfl kept
  | _ => exact UInt64.le_refl _

-- The numbers given out lie between the counter at the start of the run and the counter at its end.
theorem givenOut_ascending {s : Session} {xs : List Step} (kept : .restore ∉ xs) (fits : s.Throughout Panel.Fits xs) :
    s.panel.next ≤ (s.run xs).panel.next ∧ ∃ ns : List UInt64, s.givenOut xs = ns.map numberedId ∧
      ns.Pairwise (· < ·) ∧ ∀ n ∈ ns, s.panel.next ≤ n ∧ n < (s.run xs).panel.next := by
  induction xs generalizing s with
  | nil => exact ⟨UInt64.le_refl _, [], rfl, .nil, by simp⟩
  | cons x xs ih =>
    have keptFirst : x ≠ .restore := fun same => kept (same ▸ List.mem_cons_self ..)
    have keptRest : .restore ∉ xs := fun member => kept (List.mem_cons_of_mem _ member)
    obtain ⟨further, ns, whole, ascending, between⟩ := ih keptRest fits.2
    have raised := next_step_le keptFirst fits.1
    rw [run_cons]
    refine ⟨UInt64.le_trans raised further, ?_⟩
    by_cases adds : x = .command .add
    · subst adds
      have fitting : s.panel.Fits .add := fits.1 _ rfl
      have low := Panel.next_le_newNumber fitting
      have high : s.panel.newNumber < (s.step (.command .add)).2.panel.next := by
        rw [step_add]
        exact Panel.newNumber_lt_next fitting
      refine ⟨s.panel.newNumber :: ns, by rw [givenOut_add, whole, List.map_cons], ?_, ?_⟩
      · exact List.pairwise_cons.mpr ⟨fun n member => UInt64.lt_of_lt_of_le high (between n member).1, ascending⟩
      · refine List.forall_mem_cons.mpr ⟨⟨low, UInt64.lt_of_lt_of_le high further⟩, fun n member => ?_⟩
        exact ⟨UInt64.le_trans raised (between n member).1, (between n member).2⟩
    · refine ⟨ns, by rw [givenOut_other adds, whole], ascending, fun n member => ?_⟩
      exact ⟨UInt64.le_trans raised (between n member).1, (between n member).2⟩

theorem givenOut_nodup {s : Session} {xs : List Step} (kept : .restore ∉ xs) (fits : s.Throughout Panel.Fits xs) :
    (s.givenOut xs).Nodup := by
  obtain ⟨_, ns, whole, ascending, _⟩ := givenOut_ascending kept fits
  rw [whole]
  refine List.pairwise_map.mpr (ascending.imp fun {m n} less same => ?_)
  rw [numberedId_inj.mp same] at less
  exact UInt64.lt_irrefl _ less

end Session

theorem newIds_ascend (catalog : Catalog) {steps : List Step} (kept : .restore ∉ steps)
    (fits : (Session.start catalog).Throughout Panel.Fits steps) :
    (∀ before after, steps = before ++ .command .add :: after →
      ∃ n : UInt64,
        (((Session.start catalog).run before).step (.command .add)).1 = .ok (.id ("condition-" ++ n.toNat.repr)) ∧
        (∀ c ∈ ((Session.start catalog).run before).panel.conditions, c.id ≠ "condition-" ++ n.toNat.repr) ∧
        ∀ id ∈ (Session.start catalog).givenOut before, ∃ m < n, id = "condition-" ++ m.toNat.repr) ∧
    ((Session.start catalog).givenOut steps).Nodup := by
  refine ⟨fun before after whole => ?_, Session.givenOut_nodup kept fits⟩
  rw [whole] at kept fits
  obtain ⟨fitsBefore, fitsAfter⟩ := Session.throughout_append.mp fits
  have fitting : ((Session.start catalog).run before).panel.Fits .add := fitsAfter.1 _ rfl
  have keptBefore : .restore ∉ before := fun member => kept (List.mem_append_left _ member)
  obtain ⟨_, ns, given, _, between⟩ := Session.givenOut_ascending keptBefore fitsBefore
  refine ⟨((Session.start catalog).run before).panel.newNumber, by rw [Session.step_add]; rfl, ?_, fun id member => ?_⟩
  · exact Panel.not_contains_iff.mp (Panel.newNumber_free_of_fits fitting)
  · rw [given] at member
    obtain ⟨m, early, rfl⟩ := List.mem_map.mp member
    exact ⟨m, UInt64.lt_of_lt_of_le (between m early).2 (Panel.next_le_newNumber fitting), rfl⟩

-- Ids like those that are given out are put in, renamed and removed in between.
def numbersTaken : List Step := [
  .command (.push (.blank "condition-2")),
  .command .add,
  .command .add,
  .command (.remove "condition-3"),
  .command (.edit "condition-1" (.change (.rename "condition-4"))),
  .command .add,
  .command .clear,
  .command .add]

theorem newIds_ascend_numbersTaken :
    .restore ∉ numbersTaken ∧ (Session.start .builtIn).Throughout Panel.Fits numbersTaken ∧
    (Session.start .builtIn).givenOut numbersTaken = ["condition-1", "condition-3", "condition-5", "condition-6"] ∧
    ((Session.start .builtIn).givenOut numbersTaken).Nodup := by
  have kept : .restore ∉ numbersTaken := by simp [numbersTaken]
  have fits : (Session.start .builtIn).Throughout Panel.Fits numbersTaken :=
    Session.fits_of_short .builtIn (by decide)
  exact ⟨kept, fits, by decide +kernel, (newIds_ascend .builtIn kept fits).2⟩

end Criteria
