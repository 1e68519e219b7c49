import Criteria.Proofs.Refusals

namespace Criteria

section Places
variable {id : String} {put other : Condition → List Condition}

def replaceFirst (id : String) (put : Condition → List Condition) : List Condition → List Condition
  | [] => []
  | c :: cs => if c.id = id then put c ++ cs else c :: replaceFirst id put cs

def KeepsId (put : Condition → List Condition) : Prop := ∀ c, ∀ d ∈ put c, d.id = c.id

theorem replaceFirst_passed {before : List Condition} (passed : ∀ d ∈ before, d.id ≠ id) (rest : List Condition) :
    replaceFirst id put (before ++ rest) = before ++ replaceFirst id put rest := by
  induction before with
  | nil => rfl
  | cons d ds ih =>
    obtain ⟨other, others⟩ := List.forall_mem_cons.mp passed
    rw [List.cons_append, replaceFirst, if_neg other, ih others, List.cons_append]

theorem replaceFirst_append_other {c : Condition} (other : c.id ≠ id) (conditions : List Condition) :
    replaceFirst id put (conditions ++ [c]) = replaceFirst id put conditions ++ [c] := by
  induction conditions with
  | nil => simp [replaceFirst, other]
  | cons d ds ih =>
    rw [List.cons_append, replaceFirst, replaceFirst]
    split
    · rw [List.append_assoc]
    · rw [ih, List.cons_append]

theorem amendFirst_eq_replaceFirst (change : Change) (conditions : List Condition) :
    amendFirst id change conditions = replaceFirst id (fun c => [c.apply change]) conditions := by
  induction conditions with
  | nil => rfl
  | cons c cs ih => rw [amendFirst, replaceFirst, ih, List.singleton_append]

theorem eraseP_eq_replaceFirst (conditions : List Condition) :
    conditions.eraseP (·.id == id) = replaceFirst id (fun _ => []) conditions := by
  induction conditions with
  | nil => rfl
  | cons c cs ih =>
    rw [List.eraseP_cons, replaceFirst, ih]
    by_cases same : c.id = id
    · rw [if_pos same, cond_eq_ite, if_pos (beq_iff_eq.mpr same), List.nil_append]
    · rw [if_neg same, cond_eq_ite, if_neg (mt beq_iff_eq.mp same)]

theorem find?_replaceFirst {i j : String} (apart : i ≠ j) (keeps : KeepsId put) (conditions : List Condition) :
    (replaceFirst i put conditions).find? (·.id == j) = conditions.find? (·.id == j) := by
  induction conditions with
  | nil => rfl
  | cons c cs ih =>
    rw [replaceFirst]
    split
    · rename_i same
      have none : (put c).find? (·.id == j) = Option.none := by
        apply List.find?_eq_none.mpr
        intro d member
        simp [keeps c d member, same, apart]
      rw [List.find?_append, none, Option.none_or, List.find?_cons_of_neg (by simp [same, apart])]
    · rw [List.find?_cons, List.find?_cons, ih]

theorem replaceFirst_comm {i j : String} (apart : i ≠ j) (keeps : KeepsId put) (keepsOther : KeepsId other)
    (conditions : List Condition) :
    replaceFirst j other (replaceFirst i put conditions) = replaceFirst i put (replaceFirst j other conditions) := by
  induction conditions with
  | nil => rfl
  | cons c cs ih =>
    by_cases first : c.id = i
    · have passed : ∀ d ∈ put c, d.id ≠ j := by
        intro d member
        rw [keeps c d member, first]
        exact apart
      simp only [replaceFirst, first, if_true, if_false, apart]
      exact replaceFirst_passed passed cs
    · by_cases second : c.id = j
      · have passed : ∀ d ∈ other c, d.id ≠ i := by
          intro d member
          rw [keepsOther c d member]
          exact first
        simp only [replaceFirst, second, if_true, apart.symm, if_false]
        exact (replaceFirst_passed passed cs).symm
      · simp only [replaceFirst, first, second, if_false, ih]

end Places

namespace Panel
variable {id : String} {f : Panel → Panel}

def revise (id : String) (put : Condition → List Condition) (p : Panel) : Panel :=
  { p with conditions := replaceFirst id put p.conditions }

def append (c : Condition) (p : Panel) : Panel := { p with conditions := p.conditions ++ [c] }

theorem amend_eq (p : Panel) (id : String) (change : Change) :
    p.amend id change =
      if p.contains id then .ok (p.revise id fun c => [c.apply change]) else .error (.conditionNotFound id) := by
  rw [amend, amendFirst_eq_replaceFirst, revise]

theorem remove_eq (p : Panel) (id : String) :
    p.remove id =
      match p.find? id with
      | none => .error (.conditionNotFound id)
      | some c => .ok (c, p.revise id fun _ => []) := by
  rw [remove, eraseP_eq_replaceFirst]
  rfl

-- A change of the panel that has nothing to do with an id: the same is found there, and it may as well be revised first.
structure Spares (f : Panel → Panel) (id : String) : Prop where
  found : ∀ p : Panel, (f p).find? id = p.find? id
  revised : ∀ (p : Panel) (put : Condition → List Condition), KeepsId put → (f p).revise id put = f (p.revise id put)

theorem Spares.contains (spares : Spares f id) (p : Panel) : (f p).contains id = p.contains id := by
  rw [← find?_isSome, ← find?_isSome, spares.found]

theorem spares_revise {i j : String} (apart : i ≠ j) {put : Condition → List Condition} (keeps : KeepsId put) :
    Spares (revise i put) j where
  found p := find?_replaceFirst apart keeps p.conditions
  revised p other keepsOther := by
    rw [revise, revise, revise, revise, replaceFirst_comm apart keeps keepsOther]

theorem spares_append {c : Condition} (other : c.id ≠ id) : Spares (append c) id where
  found p := by
    rw [find?, append, List.find?_append, find?]
    simp [other]
  revised p put _ := by
    rw [revise, append, append, revise, replaceFirst_append_other other]

theorem spares_combine (k : Combinator) (id : String) : Spares (·.combine k) id where
  found _ := rfl
  revised _ _ _ := rfl

end Panel

namespace Command
open Panel
variable {id : String} {c : Command} {f : Panel → Panel}

inductive To (id : String) : Command → Prop where
  | edit {e : Edit} (kept : ∀ new, e ≠ .change (.rename new)) : To id (.edit id e)
  | remove : To id (.remove id)

def Does (c : Command) (f : Panel → Panel) : Prop := ∀ p r q, p.perform c = .ok (r, q) → q = f p

-- The command is answered as it is without the change, and the change may as well come after it.
def Ignores (c : Command) (f : Panel → Panel) : Prop :=
  ∀ p : Panel, (f p).perform c = (p.perform c).map fun x => (x.1, f x.2)

theorem keepsId_apply {e : Edit} {change : Change} (kept : ∀ new, e ≠ .change (.rename new))
    (chosen : e.change? = .ok change) : KeepsId fun c => [c.apply change] := by
  intro c d member
  rw [List.mem_singleton.mp member]
  cases change with
  | rename new => exact absurd (Edit.eq_rename_of_change? chosen) (kept new)
  | _ => rfl

theorem To.does (addressed : c.To id) : ∃ put, KeepsId put ∧ c.Does (revise id put) := by
  cases addressed with
  | remove =>
    refine ⟨fun _ => [], fun c d member => by simp at member, fun p r q done => ?_⟩
    rw [perform, map_eq_ok_iff] at done
    rcases done with ⟨⟨c, q⟩, removed, equal⟩
    obtain ⟨_, rfl⟩ := remove_eq_ok_iff.mp removed
    cases equal
    rw [revise, eraseP_eq_replaceFirst]
  | @edit e kept =>
    cases chosen : e.change? with
    | error reason =>
      refine ⟨fun c => [c], fun c d member => by rw [List.mem_singleton.mp member], fun p r q done => ?_⟩
      rcases perform_edit_eq_ok_iff.mp done with ⟨_, change, given, _⟩
      rw [chosen] at given
      cases given
    | ok change =>
      refine ⟨_, keepsId_apply kept chosen, fun p r q done => ?_⟩
      rcases perform_edit_eq_ok_iff.mp done with ⟨_, change, given, amended⟩
      rw [chosen] at given
      cases given
      rw [(amend_eq_ok_iff.mp amended).2, revise, amendFirst_eq_replaceFirst]

theorem map_amend {e : Edit} {change : Change} (kept : ∀ new, e ≠ .change (.rename new))
    (chosen : e.change? = .ok change) (spares : Spares f id) (p : Panel) :
    (f p).amend id change = (p.amend id change).map f := by
  rw [amend_eq, amend_eq, spares.contains, spares.revised p _ (keepsId_apply kept chosen)]
  split <;> rfl

theorem To.ignores (addressed : c.To id) (spares : Spares f id) : c.Ignores f := by
  intro p
  cases addressed with
  | remove =>
    rw [perform, perform, remove_eq, remove_eq, spares.found, spares.revised p _ fun _ _ member => by simp at member]
    cases p.find? id <;> rfl
  | @edit e kept =>
    have chosen : (e.change? >>= fun change => ((f p).amend id change).map (Reply.done, ·)) =
        (e.change? >>= fun change => (p.amend id change).map (Reply.done, ·)).map fun x => (x.1, f x.2) := by
      cases given : e.change? with
      | error reason => rfl
      | ok change =>
        change ((f p).amend id change).map _ = ((p.amend id change).map _).map _
        rw [map_amend kept given spares]
        cases p.amend id change <;> rfl
    cases e with
    | change c => exact chosen
    | operatorTag tag => exact chosen
    | valueText json =>
      rw [perform, perform, spares.contains]
      split
      · exact chosen
      · rfl

theorem does_push (c : Condition) : (push c).Does (append c) := by
  intro p r q done
  obtain ⟨_, pushed⟩ := map_done_eq_ok_iff.mp done
  exact (push_eq_ok_iff.mp pushed).2

theorem push_ignores {c : Condition} (spares : Spares f c.id) (after : ∀ p, (f p).append c = f (p.append c)) :
    (push c).Ignores f := by
  intro p
  change ((f p).push c).map _ = ((p.push c).map _).map _
  rw [Panel.push, Panel.push, spares.contains]
  split
  · rfl
  · exact congrArg (fun q => Except.ok (Reply.done, q)) (after p)

theorem does_combine (k : Combinator) : (combine k).Does (·.combine k) := by
  intro p r q done
  cases done
  rfl

inductive Apart : Command → Command → Prop where
  | ids {a b : Command} {i j : String} (different : i ≠ j) (first : a.To i) (second : b.To j) : Apart a b
  | push {a : Command} {c : Condition} {i : String} (different : i ≠ c.id) (first : a.To i) : Apart a (.push c)
  | combine {a : Command} {i : String} (k : Combinator) (first : a.To i) : Apart a (.combine k)
  | pushCombine (c : Condition) (k : Combinator) : Apart (.push c) (.combine k)

theorem Apart.parts {a b : Command} (apart : a.Apart b) : ∃ f g, a.Does f ∧ b.Does g ∧ a.Ignores g ∧ b.Ignores f := by
  cases apart with
  | ids different first second =>
    rcases first.does with ⟨put, keeps, does⟩
    rcases second.does with ⟨other, keepsOther, doesToo⟩
    exact ⟨_, _, does, doesToo, first.ignores (spares_revise different.symm keepsOther),
      second.ignores (spares_revise different keeps)⟩
  | @push _ c i different first =>
    rcases first.does with ⟨put, keeps, does⟩
    have spares : Spares (Panel.append c) i := spares_append different.symm
    refine ⟨_, _, does, does_push c, first.ignores spares, push_ignores (spares_revise different keeps) fun p => ?_⟩
    exact (spares.revised p put keeps).symm
  | @combine _ i k first =>
    rcases first.does with ⟨put, _, does⟩
    exact ⟨_, _, does, does_combine k, first.ignores (spares_combine _ i), fun _ => rfl⟩
  | pushCombine c k =>
    exact ⟨_, _, does_push c, does_combine k, push_ignores (spares_combine _ c.id) fun _ => rfl, fun _ => rfl⟩

end Command

namespace Session
variable {s : Session} {c : Command} {r : Reply} {q : Panel} {e : Error} {f : Panel → Panel}

theorem step_refused (refusal : s.panel.perform c = .error e) : s.step (.command c) = (.error e, s) :=
  step_eq_iff.mpr (.refused refusal)

theorem step_performed (done : s.panel.perform c = .ok (r, q)) :
    s.step (.command c) = (.ok r, { s with panel := q }) :=
  step_eq_iff.mpr (.performed (Panel.perform_eq_ok_iff.mp done))

theorem step_refused_behind (ignores : c.Ignores f) (refusal : s.panel.perform c = .error e) :
    ({ s with panel := f s.panel } : Session).step (.command c) = (.error e, { s with panel := f s.panel }) := by
  apply step_refused
  rw [ignores, refusal]
  rfl

theorem step_performed_behind (ignores : c.Ignores f) (done : s.panel.perform c = .ok (r, q)) :
    ({ s with panel := f s.panel } : Session).step (.command c) = (.ok r, { s with panel := f q }) := by
  apply step_performed
  rw [ignores, done]
  rfl

theorem steps_commute (s : Session) {a b : Command} (apart : a.Apart b) :
    (s.step (.command a)).1 = ((s.step (.command b)).2.step (.command a)).1 ∧
    (s.step (.command b)).1 = ((s.step (.command a)).2.step (.command b)).1 ∧
    ((s.step (.command a)).2.step (.command b)).2 = ((s.step (.command b)).2.step (.command a)).2 := by
  rcases apart.parts with ⟨f, g, doesA, doesB, ignoresA, ignoresB⟩
  rcases doneA : s.panel.perform a with e | ⟨r, q⟩ <;> rcases doneB : s.panel.perform b with e' | ⟨r', q'⟩
  · simp only [step_refused doneA, step_refused doneB, and_self]
  · obtain rfl := doesB _ _ _ doneB
    simp only [step_refused doneA, step_performed doneB, step_refused_behind ignoresA doneA, and_self]
  · obtain rfl := doesA _ _ _ doneA
    simp only [step_performed doneA, step_refused doneB, step_refused_behind ignoresB doneB, and_self]
  · obtain rfl := doesA _ _ _ doneA
    obtain rfl := doesB _ _ _ doneB
    -- What `b` leaves behind `a` is told in two ways: it is what `a` leaves behind `b`, and what `b` does.
    have same : f (g s.panel) = g (f s.panel) := by
      apply doesB _ r'
      rw [ignoresB, doneB]
      rfl
    simp only [step_performed doneA, step_performed doneB, step_performed_behind ignoresA doneA,
      step_performed_behind ignoresB doneB, same, and_self]

-- The first and the last condition have one id.
def enclosed : Session := (start .builtIn).run [
  .command (.push ⟨"x", some "rpt", some .equals, .flag true⟩),
  .command (.push ⟨"y", some "ad_name", some .contains, .text "a"⟩),
  .command (.push ⟨"z", some "created_at", none, .absent⟩),
  .command (.edit "z" (.change (.rename "x")))]

theorem steps_commute_enclosed :
    enclosed.panel.conditions.map Condition.id = ["x", "y", "x"] ∧
    (Command.remove "x").Apart (.edit "y" (.operatorTag "eq")) ∧
    (enclosed.step (.command (.remove "x"))).1 =
      .ok (.removed ⟨"x", some "rpt", some .equals, .flag true⟩) ∧
    ((enclosed.step (.command (.edit "y" (.operatorTag "eq")))).2.step (.command (.remove "x"))).1 =
      .ok (.removed ⟨"x", some "rpt", some .equals, .flag true⟩) ∧
    ((enclosed.step (.command (.edit "y" (.operatorTag "eq")))).2.step (.command (.remove "x"))).2.panel.conditions =
      [⟨"y", some "ad_name", some .equals, .absent⟩, ⟨"x", some "created_at", none, .absent⟩] := by
  have apart : (Command.remove "x").Apart (.edit "y" (.operatorTag "eq")) :=
    .ids (by decide) .remove (.edit fun new same => by cases same)
  rcases steps_commute enclosed apart with ⟨answer, _, final⟩
  have removed : (enclosed.step (.command (.remove "x"))).1 =
      .ok (.removed ⟨"x", some "rpt", some .equals, .flag true⟩) := rfl
  refine ⟨by decide +kernel, apart, removed, answer ▸ removed, ?_⟩
  rw [← final]
  decide +kernel

end Session
end Criteria
