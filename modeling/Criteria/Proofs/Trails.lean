import Criteria.Proofs.Runs
import Mathlib.Data.List.Induction

namespace Criteria

structure Trail where
  behind : List Step
  copied : Option (List Step)

def Trail.follow (t : Trail) : Step → Trail
  | .save => { t with copied := some t.behind }
  | .restore => { t with behind := t.copied.getD t.behind }
  | x => { t with behind := t.behind ++ [x] }

def trail (steps : List Step) : Trail := steps.foldl .follow ⟨[], none⟩

-- The steps of a run that are not undone: where the copy is brought back, those since it was saved are.
def effective (steps : List Step) : List Step := (trail steps).behind

theorem trail_append (steps : List Step) (x : Step) : trail (steps ++ [x]) = (trail steps).follow x := by
  rw [trail, List.foldl_append]
  rfl

namespace Session

theorem panel_step_of_same {s t : Session} {x : Step} (forward : x ≠ .restore) (same : s.panel = t.panel) :
    (s.step x).2.panel = (t.step x).2.panel := by
  cases x with
  | command c =>
    simp only [step, same]
    cases t.panel.perform c <;> simp [same]
  | restore => exact absurd rfl forward
  | _ => exact same

structure LeadsTo (origin : Session) (asked : Panel → Command → Prop) (steps part : List Step) (p : Panel) : Prop where
  within : part.Sublist steps
  forward : .restore ∉ part
  throughout : origin.Throughout asked part
  reached : (origin.run part).panel = p

variable {origin s : Session} {asked : Panel → Command → Prop} {steps part : List Step} {p : Panel}

theorem LeadsTo.later (leads : origin.LeadsTo asked steps part p) (x : Step) :
    origin.LeadsTo asked (steps ++ [x]) part p :=
  { leads with within := leads.within.trans (List.sublist_append_left ..) }

theorem LeadsTo.step {x : Step} (leads : origin.LeadsTo asked steps part s.panel) (forward : x ≠ .restore)
    (asks : ∀ c, x = .command c → asked s.panel c) :
    origin.LeadsTo asked (steps ++ [x]) (part ++ [x]) (s.step x).2.panel where
  within := leads.within.append (List.Sublist.refl _)
  forward := by simpa using ⟨leads.forward, forward.symm⟩
  throughout := throughout_append.mpr ⟨leads.throughout, leads.reached ▸ asks, trivial⟩
  reached := by
    rw [run_append]
    exact panel_step_of_same forward leads.reached

-- The trail and the session go together: the panel and the copy are each where the steps of the trail lead.
structure Tracks (origin : Session) (asked : Panel → Command → Prop) (steps : List Step) (t : Trail) (s : Session) :
    Prop where
  panel : origin.LeadsTo asked steps t.behind s.panel
  unsaved : s.saved = none → t.copied = none
  saved : ∀ p, s.saved = some p → ∃ part, t.copied = some part ∧ origin.LeadsTo asked steps part p

theorem Tracks.step {t : Trail} (tracks : origin.Tracks asked steps t s) {x : Step}
    (asks : ∀ c, x = .command c → asked s.panel c) :
    origin.Tracks asked (steps ++ [x]) (t.follow x) (s.step x).2 := by
  obtain ⟨panel, unsaved, saved⟩ := tracks
  have copy : ∀ p, s.saved = some p → ∃ part, t.copied = some part ∧ origin.LeadsTo asked (steps ++ [x]) part p := by
    intro p held
    obtain ⟨part, copied, leads⟩ := saved p held
    exact ⟨part, copied, leads.later x⟩
  have onward (forward : x ≠ .restore) := panel.step forward asks
  rcases taken : s.step x with ⟨reply, u⟩
  rw [taken] at onward
  cases step_eq_iff.mp taken with
  | refused refusal => exact ⟨onward (by simp), unsaved, copy⟩
  | performed done => exact ⟨onward (by simp), unsaved, copy⟩
  | found => exact ⟨onward (by simp), unsaved, copy⟩
  | held => exact ⟨onward (by simp), unsaved, copy⟩
  | saved =>
    refine ⟨panel.later _, fun nothing => (by cases nothing), fun p held => ?_⟩
    cases held
    exact ⟨t.behind, rfl, panel.later _⟩
  | restored held =>
    obtain ⟨part, copied, leads⟩ := copy _ held
    refine ⟨?_, unsaved, copy⟩
    rw [Trail.follow, copied]
    exact leads
  | unsaved nothing =>
    refine ⟨?_, unsaved, copy⟩
    rw [Trail.follow, unsaved nothing]
    exact panel.later _

theorem tracks_trail (unsaved : origin.saved = none) (throughout : origin.Throughout asked steps) :
    origin.Tracks asked steps (trail steps) (origin.run steps) := by
  induction steps using List.reverseRecOn with
  | nil => exact ⟨⟨List.Sublist.refl _, by simp [trail], trivial, rfl⟩, fun _ => rfl, by simp [run, unsaved]⟩
  | append_singleton steps x ih =>
    obtain ⟨earlier, asks, _⟩ := throughout_append.mp throughout
    rw [trail_append, run_append]
    exact (ih earlier).step asks

theorem effective_leadsTo (catalog : Catalog) {steps : List Step}
    (throughout : (start catalog).Throughout asked steps) :
    (start catalog).LeadsTo asked steps (effective steps) ((start catalog).run steps).panel :=
  (tracks_trail rfl throughout).panel

end Session
end Criteria
