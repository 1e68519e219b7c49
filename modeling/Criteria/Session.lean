import Criteria.Panel

namespace Criteria

structure Session where
  panel : Panel
  saved : Option Panel

inductive Step where
  | command (c : Command)
  | find (id : String)
  | holds (id : String)
  | save
  | restore

namespace Session

def start (catalog : Catalog) : Session := ⟨.new catalog, none⟩

def step (s : Session) : Step → Except Error Reply × Session
  | .command c =>
    match s.panel.perform c with
    -- A command that is refused has changed nothing; see `Panel.perform`.
    | .error e => (.error e, s)
    | .ok (reply, panel) => (.ok reply, { s with panel := panel })
  | .find id => (.ok (.found (s.panel.find? id)), s)
  | .holds id => (.ok (.held (s.panel.contains id)), s)
  | .save => (.ok .done, { s with saved := some s.panel })
  | .restore =>
    match s.saved with
    | none => (.ok (.restored false), s)
    | some panel => (.ok (.restored true), { s with panel := panel })

def run (s : Session) (steps : List Step) : Session := steps.foldl (fun s t => (s.step t).2) s

theorem run_append (s : Session) (xs ys : List Step) : s.run (xs ++ ys) = (s.run xs).run ys := List.foldl_append

theorem step_error {s t : Session} {x : Step} {e : Error} (h : s.step x = (.error e, t)) : t = s := by
  unfold step at h
  split at h
  · split at h <;> cases h
    rfl
  · cases h
  · cases h
  · cases h
  · split at h <;> cases h

end Session

def Step.events : Step → List Event
  | .command c => c.events
  | _ => []

end Criteria
