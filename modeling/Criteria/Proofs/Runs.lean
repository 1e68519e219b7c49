import Criteria.Session

namespace Criteria

structure First (id : String) (conditions before : List Condition) (c : Condition) (after : List Condition) : Prop where
  whole : conditions = before ++ c :: after
  named : c.id = id
  passed : ∀ d ∈ before, d.id ≠ id

theorem exists_first {id : String} {conditions : List Condition} (held : ∃ c ∈ conditions, c.id = id) :
    ∃ before c after, First id conditions before c after := by
  induction conditions with
  | nil => simp at held
  | cons d ds ih =>
    by_cases same : d.id = id
    · exact ⟨[], d, ds, rfl, same, by simp⟩
    · have later : ∃ c ∈ ds, c.id = id := by simpa [same] using held
      obtain ⟨before, c, after, first⟩ := ih later
      refine ⟨d :: before, c, after, by rw [first.whole, List.cons_append], first.named, ?_⟩
      exact List.forall_mem_cons.mpr ⟨same, first.passed⟩

theorem amendFirst_append {id : String} {before : List Condition} (passed : ∀ d ∈ before, d.id ≠ id)
    (change : Change) (rest : List Condition) :
    amendFirst id change (before ++ rest) = before ++ amendFirst id change rest := by
  induction before with
  | nil => rfl
  | cons d ds ih =>
    obtain ⟨other, others⟩ := List.forall_mem_cons.mp passed
    rw [List.cons_append, amendFirst, if_neg other, ih others, List.cons_append]

namespace First
variable {id : String} {conditions before after : List Condition} {c : Condition}

theorem others_subset (first : First id conditions before c after) : before ++ after ⊆ conditions := by
  rw [first.whole]
  exact (List.Sublist.append_left (List.sublist_cons_self ..) before).subset

theorem find?_eq (first : First id conditions before c after) : conditions.find? (·.id == id) = some c := by
  rw [List.find?_eq_some_iff_append]
  refine ⟨by simp [first.named], before, after, first.whole, fun d member => ?_⟩
  simp [first.passed d member]

theorem eraseP_eq (first : First id conditions before c after) : conditions.eraseP (·.id == id) = before ++ after := by
  have passed : ∀ d ∈ before, ¬ (d.id == id) = true := fun d member => by simp [first.passed d member]
  rw [first.whole, List.eraseP_append_right _ passed, List.eraseP_cons_of_pos (by simp [first.named])]

theorem amendFirst_eq (first : First id conditions before c after) (change : Change) :
    amendFirst id change conditions = before ++ c.apply change :: after := by
  rw [first.whole, amendFirst_append first.passed, amendFirst, if_pos first.named]

end First

namespace Panel

theorem not_contains_iff {p : Panel} {id : String} : p.contains id = false ↔ ∀ c ∈ p.conditions, c.id ≠ id := by
  rw [Bool.eq_false_iff, ne_eq, contains_iff]
  simp

theorem exists_first_of_contains {p : Panel} {id : String} (held : p.contains id = true) :
    ∃ before c after, First id p.conditions before c after := exists_first (contains_iff.mp held)

theorem contains_of_first {p : Panel} {id : String} {before after : List Condition} {c : Condition}
    (first : First id p.conditions before c after) : p.contains id = true :=
  contains_iff.mpr ⟨c, by rw [first.whole]; simp, first.named⟩

theorem remove_first {p : Panel} {id : String} {before after : List Condition} {c : Condition}
    (first : First id p.conditions before c after) :
    p.remove id = .ok (c, { p with conditions := before ++ after }) :=
  remove_eq_ok_iff.mpr ⟨first.find?_eq, by rw [first.eraseP_eq]⟩

theorem exists_first_of_remove {p q : Panel} {id : String} {c : Condition} (removed : p.remove id = .ok (c, q)) :
    ∃ before after, First id p.conditions before c after ∧ q = { p with conditions := before ++ after } := by
  obtain ⟨found, _⟩ := remove_eq_ok_iff.mp removed
  have held : p.contains id = true := by rw [← find?_isSome, found]; rfl
  obtain ⟨before, d, after, first⟩ := exists_first_of_contains held
  rw [remove_first first] at removed
  cases removed
  exact ⟨before, after, first, rfl⟩

theorem amend_first {p : Panel} {id : String} {before after : List Condition} {c : Condition}
    (first : First id p.conditions before c after) (change : Change) :
    p.amend id change = .ok { p with conditions := before ++ c.apply change :: after } :=
  amend_eq_ok_iff.mpr ⟨contains_of_first first, by rw [first.amendFirst_eq]⟩

inductive Performed (p : Panel) : Command → Reply → Panel → Prop where
  | add : p.Performed .add (.id p.add.1) p.add.2
  | push {c : Condition} (free : p.contains c.id = false) :
      p.Performed (.push c) .done { p with conditions := p.conditions ++ [c] }
  | pushText {json : String} {c : Condition} (read : Condition.decode json = .ok c) (free : p.contains c.id = false) :
      p.Performed (.pushText json) .done { p with conditions := p.conditions ++ [c] }
  | remove {id : String} {before after : List Condition} {c : Condition}
      (first : First id p.conditions before c after) :
      p.Performed (.remove id) (.removed c) { p with conditions := before ++ after }
  | edit {id : String} {e : Edit} {change : Change} {before after : List Condition} {c : Condition}
      (chosen : e.change? = .ok change) (first : First id p.conditions before c after) :
      p.Performed (.edit id e) .done { p with conditions := before ++ c.apply change :: after }
  | combine {k : Combinator} : p.Performed (.combine k) .done (p.combine k)
  | clear : p.Performed .clear .done p.clear

theorem map_done_eq_ok_iff {x : Except Error Panel} {q : Panel} {r : Reply} :
    x.map (Reply.done, ·) = .ok (r, q) ↔ r = .done ∧ x = .ok q := by
  cases x <;> simp [Except.map, eq_comm]

-- The order in which an edit is refused makes no difference to one that succeeds.
theorem perform_edit_eq_ok_iff {p q : Panel} {r : Reply} {id : String} {e : Edit} :
    p.perform (.edit id e) = .ok (r, q) ↔
      r = .done ∧ ∃ change, e.change? = .ok change ∧ p.amend id change = .ok q := by
  have chosen : (e.change? >>= fun change => (p.amend id change).map (Reply.done, ·)) = .ok (r, q) ↔
      r = .done ∧ ∃ change, e.change? = .ok change ∧ p.amend id change = .ok q := by
    cases e.change? with
    | error reason => simp [bind, Except.bind]
    | ok change => simp [bind, Except.bind, map_done_eq_ok_iff]
  cases e with
  | change c => exact chosen
  | operatorTag tag => exact chosen
  | valueText json =>
    rw [perform]
    split
    · exact chosen
    · rename_i missing
      simp [amend, missing]

theorem performed_of_perform {p q : Panel} {c : Command} {r : Reply} (done : p.perform c = .ok (r, q)) :
    p.Performed c r q := by
  cases c with
  | add =>
    cases done
    exact .add
  | push c =>
    obtain ⟨rfl, pushed⟩ := map_done_eq_ok_iff.mp done
    obtain ⟨free, rfl⟩ := push_eq_ok_iff.mp pushed
    exact .push free
  | pushText json =>
    rw [perform] at done
    cases read : Condition.decode json with
    | error e =>
      rw [read] at done
      cases done
    | ok c =>
      rw [read] at done
      obtain ⟨rfl, pushed⟩ := map_done_eq_ok_iff.mp done
      obtain ⟨free, rfl⟩ := push_eq_ok_iff.mp pushed
      exact .pushText read free
  | remove id =>
    rw [perform] at done
    cases removed : p.remove id with
    | error e =>
      rw [removed] at done
      cases done
    | ok result =>
      rw [removed] at done
      cases done
      obtain ⟨before, after, first, whole⟩ := exists_first_of_remove removed
      rw [whole]
      exact .remove first
  | edit id e =>
    obtain ⟨rfl, change, chosen, amended⟩ := perform_edit_eq_ok_iff.mp done
    obtain ⟨before, c, after, first⟩ := exists_first_of_contains (amend_eq_ok_iff.mp amended).1
    rw [amend_first first] at amended
    cases amended
    exact .edit chosen first
  | combine k =>
    cases done
    exact .combine
  | clear =>
    cases done
    exact .clear

theorem perform_of_performed {p q : Panel} {c : Command} {r : Reply} (done : p.Performed c r q) :
    p.perform c = .ok (r, q) := by
  cases done with
  | add => rfl
  | push free => exact map_done_eq_ok_iff.mpr ⟨rfl, push_eq_ok_iff.mpr ⟨free, rfl⟩⟩
  | pushText read free =>
    rw [perform, read]
    exact map_done_eq_ok_iff.mpr ⟨rfl, push_eq_ok_iff.mpr ⟨free, rfl⟩⟩
  | remove first =>
    rw [perform, remove_first first]
    rfl
  | edit chosen first => exact perform_edit_eq_ok_iff.mpr ⟨rfl, _, chosen, amend_first first _⟩
  | combine => rfl
  | clear => rfl

theorem perform_eq_ok_iff {p q : Panel} {c : Command} {r : Reply} :
    p.perform c = .ok (r, q) ↔ p.Performed c r q := ⟨performed_of_perform, perform_of_performed⟩

theorem Performed.next_eq {p q : Panel} {c : Command} {r : Reply} (done : p.Performed c r q) (other : c ≠ .add) :
    q.next = p.next := by
  cases done with
  | add => exact absurd rfl other
  | _ => rfl

theorem Performed.newcomer {p q : Panel} {c : Command} {r : Reply} (done : p.Performed c r q) :
    ∃ new, ∀ d ∈ q.conditions, d ∈ p.conditions ∨ d.id = new := by
  have appended (c : Condition) : ∀ d ∈ p.conditions ++ [c], d ∈ p.conditions ∨ d.id = c.id := by
    intro d member
    rcases List.mem_append.mp member with old | new
    · exact .inl old
    · exact .inr (by rw [List.mem_singleton.mp new])
  cases done with
  | add => exact ⟨_, appended (.blank p.add.1)⟩
  | push free => exact ⟨_, appended _⟩
  | pushText read free => exact ⟨_, appended _⟩
  | @remove id before after c first => exact ⟨id, fun d member => .inl (first.others_subset member)⟩
  | @edit id e change before after c chosen first =>
    refine ⟨(c.apply change).id, fun d member => ?_⟩
    rcases List.mem_cons.mp (List.perm_middle.mem_iff.mp member) with rfl | other
    · exact .inr rfl
    · exact .inl (first.others_subset other)
  | combine => exact ⟨"", fun d member => .inl member⟩
  | clear => exact ⟨"", fun d member => nomatch member⟩

theorem Performed.size_le {p q : Panel} {c : Command} {r : Reply} (done : p.Performed c r q) :
    q.size ≤ p.size + 1 := by
  cases done with
  | add => simp [size, conditions_add]
  | push free => simp [size]
  | pushText read free => simp [size]
  | remove first =>
    simp only [size, first.whole, List.length_append, List.length_cons]
    omega
  | edit chosen first =>
    simp only [size, first.whole, List.length_append, List.length_cons]
    omega
  | combine => simp [size, Panel.combine]
  | clear => simp [size, Panel.clear]

end Panel

namespace Session

inductive Stepped (s : Session) : Step → Except Error Reply → Session → Prop where
  | refused {c : Command} {e : Error} (refusal : s.panel.perform c = .error e) : s.Stepped (.command c) (.error e) s
  | performed {c : Command} {r : Reply} {q : Panel} (done : s.panel.Performed c r q) :
      s.Stepped (.command c) (.ok r) { s with panel := q }
  | found {id : String} : s.Stepped (.find id) (.ok (.found (s.panel.find? id))) s
  | held {id : String} : s.Stepped (.holds id) (.ok (.held (s.panel.contains id))) s
  | saved : s.Stepped .save (.ok .done) { s with saved := some s.panel }
  | restored {p : Panel} (copy : s.saved = some p) : s.Stepped .restore (.ok (.restored true)) { s with panel := p }
  | unsaved (nothing : s.saved = none) : s.Stepped .restore (.ok (.restored false)) s

theorem stepped_of_step {s t : Session} {x : Step} {reply : Except Error Reply} (taken : s.step x = (reply, t)) :
    s.Stepped x reply t := by
  cases x with
  | command c =>
    simp only [step] at taken
    split at taken
    · rename_i e refusal
      cases taken
      exact .refused refusal
    · rename_i r q done
      cases taken
      exact .performed (Panel.perform_eq_ok_iff.mp done)
  | find id =>
    cases taken
    exact .found
  | holds id =>
    cases taken
    exact .held
  | save =>
    cases taken
    exact .saved
  | restore =>
    simp only [step] at taken
    split at taken
    · rename_i nothing
      cases taken
      exact .unsaved nothing
    · rename_i p copy
      cases taken
      exact .restored copy

theorem step_of_stepped {s t : Session} {x : Step} {reply : Except Error Reply} (taken : s.Stepped x reply t) :
    s.step x = (reply, t) := by
  cases taken with
  | refused refusal => simp only [step, refusal]
  | performed done => simp only [step, Panel.perform_eq_ok_iff.mpr done]
  | found => rfl
  | held => rfl
  | saved => rfl
  | restored copy => simp only [step, copy]
  | unsaved nothing => simp only [step, nothing]

theorem step_eq_iff {s t : Session} {x : Step} {reply : Except Error Reply} :
    s.step x = (reply, t) ↔ s.Stepped x reply t := ⟨stepped_of_step, step_of_stepped⟩

def Both (holds : Panel → Prop) (s : Session) : Prop := holds s.panel ∧ ∀ p, s.saved = some p → holds p

theorem step_both {holds later : Panel → Prop} {s : Session} {x : Step} (weaker : ∀ p, holds p → later p)
    (preserved : ∀ c r q, x = .command c → s.panel.Performed c r q → holds s.panel → later q) (both : s.Both holds) :
    (s.step x).2.Both later := by
  have copies : ∀ p, s.saved = some p → later p := fun p copy => weaker p (both.2 p copy)
  have same : s.Both later := ⟨weaker _ both.1, copies⟩
  rcases taken : s.step x with ⟨reply, t⟩
  cases step_eq_iff.mp taken with
  | refused refusal => exact same
  | performed done => exact ⟨preserved _ _ _ rfl done both.1, copies⟩
  | found => exact same
  | held => exact same
  | saved => exact ⟨same.1, fun p copy => Option.some.inj copy ▸ same.1⟩
  | restored copy => exact ⟨copies _ copy, copies⟩
  | unsaved nothing => exact same

theorem run_cons (s : Session) (x : Step) (xs : List Step) : s.run (x :: xs) = (s.step x).2.run xs := rfl

-- Every command of a run is as asked, for the panel to which it is given.
def Throughout (asked : Panel → Command → Prop) (s : Session) : List Step → Prop
  | [] => True
  | x :: xs => (∀ c, x = .command c → asked s.panel c) ∧ (s.step x).2.Throughout asked xs

theorem throughout_append {asked : Panel → Command → Prop} {s : Session} {xs ys : List Step} :
    s.Throughout asked (xs ++ ys) ↔ s.Throughout asked xs ∧ (s.run xs).Throughout asked ys := by
  induction xs generalizing s with
  | nil => simp [Throughout, run]
  | cons x xs ih => rw [List.cons_append, Throughout, Throughout, ih, run_cons, and_assoc]

theorem throughout_and {asked other : Panel → Command → Prop} {s : Session} {xs : List Step}
    (first : s.Throughout asked xs) (second : s.Throughout other xs) :
    s.Throughout (fun p c => asked p c ∧ other p c) xs := by
  induction xs generalizing s with
  | nil => trivial
  | cons x xs ih => exact ⟨fun c same => ⟨first.1 c same, second.1 c same⟩, ih first.2 second.2⟩

section
variable {asked : Panel → Command → Prop} (holds : Nat → Panel → Prop)
  (weaker : ∀ n p, holds n p → holds (n + 1) p)
  (preserved : ∀ n p c r q, asked p c → p.Performed c r q → holds n p → holds (n + 1) q)
include weaker preserved

-- The steps taken so far are counted, so that what holds may grow with them.
theorem run_both (n : Nat) {s : Session} {xs : List Step} (throughout : s.Throughout asked xs)
    (start : s.Both (holds n)) : (s.run xs).Both (holds (n + xs.length)) := by
  induction xs generalizing n s with
  | nil => exact start
  | cons x xs ih =>
    have next : (s.step x).2.Both (holds (n + 1)) :=
      step_both (weaker n) (fun c r q same => preserved n s.panel c r q (throughout.1 c same)) start
    have last := ih (n + 1) throughout.2 next
    rwa [run_cons, List.length_cons, Nat.add_comm xs.length 1, ← Nat.add_assoc]

theorem throughout_of_both {bound : Nat} (enough : ∀ n p c, n < bound → holds n p → asked p c) (n : Nat) {s : Session}
    {xs : List Step} (short : n + xs.length ≤ bound) (start : s.Both (holds n)) : s.Throughout asked xs := by
  induction xs generalizing n s with
  | nil => trivial
  | cons x xs ih =>
    rw [List.length_cons] at short
    have now : ∀ c, x = .command c → asked s.panel c := fun c _ => enough n s.panel c (by omega) start.1
    have next : (s.step x).2.Both (holds (n + 1)) :=
      step_both (weaker n) (fun c r q same => preserved n s.panel c r q (now c same)) start
    exact ⟨now, ih (n + 1) (by omega) next⟩

end
end Session
end Criteria
