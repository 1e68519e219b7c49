import Criteria.Proofs.Refusals
import Criteria.Proofs.Trails
import Mathlib.Data.List.Basic

namespace Criteria

namespace Command

-- What is left of a condition that stands in the panel.
def fate : Command → Condition → Option Condition
  | .remove id, c => if c.id = id then none else some c
  | .edit id e, c => if c.id = id then some (c.edited e) else some c
  | .clear, _ => none
  | _, c => some c

def brings : Command → Reply → Option Condition
  | .add, .id id => some (.blank id)
  | .push c, _ => some c
  | .pushText json, _ => (Condition.decode json).toOption
  | _, _ => none

end Command

theorem filterMap_of_kept {f : Condition → Option Condition} {conditions : List Condition}
    (kept : ∀ c ∈ conditions, f c = some c) : conditions.filterMap f = conditions :=
  (List.filterMap_congr kept).trans List.filterMap_some

theorem filterMap_at {id : String} {f : Condition → Option Condition} {before after : List Condition} {c : Condition}
    (named : c.id = id) (others : ∀ d ∈ before ++ after, d.id ≠ id) :
    (before ++ c :: after).filterMap (fun d => if d.id = id then f d else some d) =
      before ++ ((f c).toList ++ after) := by
  obtain ⟨first, last⟩ := List.forall_mem_append.mp others
  rw [List.filterMap_append, List.filterMap_cons, if_pos named,
    filterMap_of_kept fun d member => if_neg (first d member), filterMap_of_kept fun d member => if_neg (last d member)]
  cases f c <;> rfl

namespace Panel
variable {p q : Panel} {c : Command}

theorem Refused.kept {e : Error} (refused : p.Refused c e) : p.conditions.filterMap c.fate = p.conditions := by
  refine filterMap_of_kept fun d member => ?_
  cases refused with
  | taken held => rfl
  | unread unread => rfl
  | takenText read held => rfl
  | gone missing => exact if_neg (missing d member)
  | @unknownTag id tag unknown =>
    have failed : (Edit.operatorTag tag).change? = .error (.unknownOperator tag) :=
      map_eq_error_iff.mpr (Operator.parse_eq_error_iff.mpr ⟨unknown, rfl⟩)
    simp only [Command.fate, Condition.edited_of_error failed, ite_self]
  | absent missing known => exact if_neg (missing d member)
  | @unreadValue id json fault held unread =>
    have failed : (Edit.valueText json).change? = .error (.malformed fault) :=
      map_eq_error_iff.mpr (decodeWith_eq_error_iff.mpr ⟨fault, unread, rfl⟩)
    simp only [Command.fate, Condition.edited_of_error failed, ite_self]

theorem Performed.conditions {r : Reply} (done : p.Performed c r q) (distinct : p.Distinct) :
    q.conditions = p.conditions.filterMap c.fate ++ (c.brings r).toList := by
  have behind (new : List Condition) : p.conditions ++ new = p.conditions.filterMap some ++ new := by
    rw [List.filterMap_some]
  cases done with
  | add => exact behind [_]
  | push free => exact behind [_]
  | pushText read free =>
    rw [Command.brings, read]
    exact behind [_]
  | remove first =>
    have others := (others_of_first distinct first).1
    rw [first.whole]
    exact ((List.append_nil _).trans (filterMap_at (f := fun _ => none) first.named others)).symm
  | @edit id e change before after d chosen first =>
    have others := (others_of_first distinct first).1
    have amended := filterMap_at (f := fun d => some (d.edited e)) first.named others
    rw [Condition.edited_of_ok chosen] at amended
    rw [first.whole]
    exact ((List.append_nil _).trans amended).symm
  | combine => exact (List.append_nil _).symm.trans (behind [])
  | clear => simp [Panel.clear, Command.fate, Command.brings]

end Panel

def Step.fate : Step → Condition → Option Condition
  | .command c => c.fate
  | _ => some

def fateAll : List Step → Condition → Option Condition
  | [], c => some c
  | x :: xs, c => (x.fate c).bind (fateAll xs)

theorem filterMap_fateAll_cons (x : Step) (xs : List Step) (conditions : List Condition) :
    conditions.filterMap (fateAll (x :: xs)) = (conditions.filterMap x.fate).filterMap (fateAll xs) :=
  List.filterMap_filterMap.symm

namespace Session

def put? (s : Session) (x : Step) : Option Condition :=
  match x, (s.step x).1 with
  | .command c, .ok r => c.brings r
  | _, _ => none

-- Along a history, what each step puts in, as far as the steps after it leave it.
def lasting (s : Session) : List Step → List Condition
  | [] => []
  | x :: xs => ((s.put? x).bind (fateAll xs)).toList ++ (s.step x).2.lasting xs

theorem conditions_step {s : Session} {x : Step} (distinct : s.panel.Distinct) (forward : x ≠ .restore) :
    (s.step x).2.panel.conditions = s.panel.conditions.filterMap x.fate ++ (s.put? x).toList := by
  have still : s.panel.conditions = s.panel.conditions.filterMap some ++ [] := by
    rw [List.filterMap_some, List.append_nil]
  rcases taken : s.step x with ⟨reply, t⟩
  unfold put?
  rw [taken]
  cases step_eq_iff.mp taken with
  | refused refusal =>
    have kept := (Panel.perform_eq_error_iff.mp refusal).kept
    exact kept.symm.trans (List.append_nil _).symm
  | performed done => exact done.conditions distinct
  | found => exact still
  | held => exact still
  | saved => exact still
  | restored copy => exact absurd rfl forward
  | unsaved nothing => exact absurd rfl forward

-- What stands at the beginning comes first, and what the history puts in behind it. Edits find their condition by its
-- id, so the ids have to be distinct all along.
theorem conditions_run {s : Session} {xs : List Step} (forward : .restore ∉ xs)
    (apart : s.Throughout Panel.RenamesApart xs) (ends : s.Throughout Panel.Ends xs) (distinct : s.Both Panel.Distinct) :
    (s.run xs).panel.conditions = s.panel.conditions.filterMap (fateAll xs) ++ s.lasting xs := by
  induction xs generalizing s with
  | nil => exact List.filterMap_some.symm.trans (List.append_nil _).symm
  | cons x xs ih =>
    obtain ⟨now, later⟩ := not_or.mp (mt List.mem_cons.mpr forward)
    have next : (s.run [x]).Both Panel.Distinct := run_distinct ⟨apart.1, trivial⟩ ⟨ends.1, trivial⟩ distinct
    have put : (s.put? x).toList.filterMap (fateAll xs) = ((s.put? x).bind (fateAll xs)).toList := by
      cases s.put? x with
      | none => rfl
      | some c => cases h : fateAll xs c <;> simp [h]
    calc (s.run (x :: xs)).panel.conditions
        = (s.step x).2.panel.conditions.filterMap (fateAll xs) ++ (s.step x).2.lasting xs :=
          ih later apart.2 ends.2 next
      _ = (s.panel.conditions.filterMap x.fate).filterMap (fateAll xs) ++
            (s.put? x).toList.filterMap (fateAll xs) ++ (s.step x).2.lasting xs := by
          rw [conditions_step distinct.1 (Ne.symm now), List.filterMap_append]
      _ = s.panel.conditions.filterMap (fateAll (x :: xs)) ++ s.lasting (x :: xs) := by
          rw [← filterMap_fateAll_cons, put, List.append_assoc, lasting]

theorem apart_of_unrenamed {s : Session} {xs : List Step}
    (unrenamed : ∀ id new, .command (.edit id (.change (.rename new))) ∉ xs) : s.Throughout Panel.RenamesApart xs := by
  induction xs generalizing s with
  | nil => trivial
  | cons x xs ih =>
    refine ⟨?_, ih fun id new member => unrenamed id new (List.mem_cons_of_mem _ member)⟩
    rintro c rfl
    unfold Panel.RenamesApart
    split
    · exact absurd (List.mem_cons_self ..) (unrenamed _ _)
    · trivial

end Session

namespace Panel

structure PutLast (p : Panel) (c : Condition) (q : Panel) : Prop where
  whole : q = { p with conditions := p.conditions ++ [c], next := q.next }
  new : ∀ d ∈ p.conditions, d.id ≠ c.id
  undone : q.remove c.id = .ok (c, { p with next := q.next })

def Touches (p : Panel) (r : Reply) (q : Panel) : Command → Prop
  | .add => ∃ id, r = .id id ∧ p.PutLast (.blank id) q
  | .push c => r = .done ∧ p.PutLast c q ∧ q.next = p.next
  | .pushText json => ∃ c, Condition.decode json = .ok c ∧ r = .done ∧ p.PutLast c q ∧ q.next = p.next
  | .remove id =>
    ∃ before c after, p.Stands id before c after ∧ r = .removed c ∧ q = { p with conditions := before ++ after }
  | .edit id e =>
    ∃ before c after d, p.Stands id before c after ∧ r = .done ∧ c.edit e = .ok d ∧
      (d.id = c.id ∨ ∃ new, e = .change (.rename new)) ∧ q = { p with conditions := before ++ d :: after }
  | .combine k => r = .done ∧ q = { p with combinator := k }
  | .clear => r = .done ∧ q = { p with conditions := [] }

theorem putLast_of_free {p : Panel} {c : Condition} (free : p.contains c.id = false) (next : UInt64) :
    p.PutLast c { p with conditions := p.conditions ++ [c], next := next } := by
  have new := not_contains_iff.mp free
  refine ⟨rfl, new, ?_⟩
  rw [remove_first ⟨rfl, rfl, new⟩, List.append_nil]

theorem Performed.touches {p q : Panel} {c : Command} {r : Reply} (done : p.Performed c r q) (ends : p.Ends c)
    (distinct : p.Distinct) : p.Touches r q c := by
  cases done with
  | add =>
    rw [add_eq]
    exact ⟨_, rfl, putLast_of_free (newNumber_free (exists_free_iff.mp ends)) _⟩
  | push free => exact ⟨rfl, putLast_of_free free _, rfl⟩
  | pushText read free => exact ⟨_, read, rfl, putLast_of_free free _, rfl⟩
  | remove first => exact ⟨_, _, _, stands_of_first distinct first, rfl, rfl⟩
  | @edit id e change before after c chosen first =>
    have edited : c.edit e = .ok (c.apply change) := by
      rw [Condition.edit, chosen]
      rfl
    refine ⟨_, _, _, _, stands_of_first distinct first, rfl, edited, ?_, rfl⟩
    cases change with
    | rename new => exact .inr ⟨new, Edit.eq_rename_of_change? chosen⟩
    | _ => exact .inl rfl
  | combine => exact ⟨rfl, rfl⟩
  | clear => exact ⟨rfl, rfl⟩

end Panel

theorem conditions_chronological (catalog : Catalog) (steps : List Step) :
    (∀ (p q : Panel) (c : Command) (r : Reply),
      p.Distinct → p.Ends c → p.perform c = .ok (r, q) → p.Touches r q c) ∧
    ((∀ id new, .command (.edit id (.change (.rename new))) ∉ steps) →
      (Session.start catalog).Throughout Panel.RenamesApart steps) ∧
    (steps.length ≤ 2 ^ 64 → (Session.start catalog).Throughout Panel.Ends steps) ∧
    ((Session.start catalog).Throughout Panel.RenamesApart steps →
      (Session.start catalog).Throughout Panel.Ends steps →
      (effective steps).Sublist steps ∧
      ((Session.start catalog).run (effective steps)).panel = ((Session.start catalog).run steps).panel ∧
      ((Session.start catalog).run steps).panel.conditions = (Session.start catalog).lasting (effective steps)) := by
  refine ⟨fun p q c r distinct ends done => (Panel.perform_eq_ok_iff.mp done).touches ends distinct,
    Session.apart_of_unrenamed, Session.ends_of_short catalog, fun apart ends => ?_⟩
  have renamed := Session.effective_leadsTo catalog apart
  have ended := Session.effective_leadsTo catalog ends
  have whole := Session.conditions_run renamed.forward renamed.throughout ended.throughout
    (Session.start_distinct catalog)
  refine ⟨renamed.within, renamed.reached, ?_⟩
  rw [← renamed.reached, whole]
  rfl

-- One condition is taken away and put in again; the panel is cleared and another put in, but these steps are undone.
def comings : List Step := [
  .command .add,
  .command (.push ⟨"x", some "rpt", some .equals, .flag true⟩),
  .command (.push (.blank "y")),
  .command (.remove "x"),
  .command (.push ⟨"x", some "ad_name", some .contains, .text "a"⟩),
  .save,
  .command .clear,
  .command (.push (.blank "z")),
  .restore,
  .command (.edit "y" (.change (.field (some "rpt")))),
  .command (.edit "y" (.operatorTag "like")),
  .command (.remove "condition-1"),
  .command .add]

theorem conditions_chronological_comings :
    (Session.start .builtIn).Throughout Panel.RenamesApart comings ∧
    (Session.start .builtIn).Throughout Panel.Ends comings ∧
    (effective comings).length = 9 ∧ (effective comings).Sublist comings ∧
    ((Session.start .builtIn).run comings).panel.conditions = (Session.start .builtIn).lasting (effective comings) ∧
    (Session.start .builtIn).lasting (effective comings) =
      [⟨"y", some "rpt", none, .absent⟩, ⟨"x", some "ad_name", some .contains, .text "a"⟩, .blank "condition-2"] ∧
    ∃ q, ((Session.start .builtIn).run comings).panel.push (.blank "z") = .ok q ∧
      ((Session.start .builtIn).run comings).panel.PutLast (.blank "z") q := by
  obtain ⟨touches, unrenamed, short, whole⟩ := conditions_chronological .builtIn comings
  have apart := unrenamed (by simp [comings])
  have ends := short (by decide)
  obtain ⟨within, _, lasting⟩ := whole apart ends
  have distinct := (Session.run_distinct apart ends (Session.start_distinct .builtIn)).1
  have free : ((Session.start .builtIn).run comings).panel.contains "z" = false := by decide +kernel
  obtain ⟨_, last, _⟩ := touches _ _ (.push (.blank "z")) _ distinct trivial (Panel.perform_eq_ok_iff.mpr (.push free))
  refine ⟨apart, ends, rfl, within, lasting, ?_, _, Panel.push_eq_ok_iff.mpr ⟨free, rfl⟩, last⟩
  rw [← lasting]
  decide +kernel

end Criteria
