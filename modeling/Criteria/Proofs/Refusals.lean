import Criteria.Proofs.DistinctIds

namespace Criteria

section Errors
variable {α β : Type} {e : Error}

theorem map_eq_error_iff {f : α → β} {x : Except Error α} : x.map f = .error e ↔ x = .error e := by
  cases x <;> simp [Except.map]

theorem map_eq_ok_iff {f : α → β} {x : Except Error α} {b : β} : x.map f = .ok b ↔ ∃ a, x = .ok a ∧ f a = b := by
  cases x <;> simp [Except.map]

theorem bind_eq_error_iff {f : α → Except Error β} {x : Except Error α} :
    (x >>= f) = .error e ↔ x = .error e ∨ ∃ a, x = .ok a ∧ f a = .error e := by
  cases x <;> simp [bind, Except.bind]

theorem decodeWith_eq_error_iff {p : Nat → Json.Reader α} {text : String} :
    decodeWith p text = .error e ↔ ∃ fault, Json.decode (p Json.room) text = .error fault ∧ e = .malformed fault := by
  unfold decodeWith
  cases Json.decode (p Json.room) text with
  | error fault =>
    change Except.error (Error.malformed fault) = .error e ↔ _
    simp [eq_comm]
  | ok a =>
    change Except.ok a = .error e ↔ _
    simp

end Errors

namespace Panel
variable {p : Panel} {id : String} {e : Error}

theorem push_eq_error_iff {c : Condition} :
    p.push c = .error e ↔ (∃ d ∈ p.conditions, d.id = c.id) ∧ e = .duplicateCondition c.id := by
  rw [← contains_iff]
  unfold push
  cases p.contains c.id <;> simp [eq_comm]

theorem remove_eq_error_iff :
    p.remove id = .error e ↔ (∀ d ∈ p.conditions, d.id ≠ id) ∧ e = .conditionNotFound id := by
  rw [← not_contains_iff, ← find?_isSome]
  unfold remove
  cases p.find? id <;> simp [eq_comm]

theorem amend_eq_error_iff {change : Change} :
    p.amend id change = .error e ↔ (∀ d ∈ p.conditions, d.id ≠ id) ∧ e = .conditionNotFound id := by
  rw [← not_contains_iff]
  unfold amend
  cases p.contains id <;> simp [eq_comm]

-- Why a panel refuses a command. Adding, combining and clearing have no case, so they are never refused.
inductive Refused (p : Panel) : Command → Error → Prop where
  | taken {c : Condition} (held : ∃ d ∈ p.conditions, d.id = c.id) :
      p.Refused (.push c) (.duplicateCondition c.id)
  -- The text of a condition is read before its id is looked up.
  | unread {json : String} {fault : Json.Fault}
      (unread : Json.decode (Condition.layout.read Json.room) json = .error fault) :
      p.Refused (.pushText json) (.malformed fault)
  | takenText {json : String} {c : Condition} (read : Condition.decode json = .ok c)
      (held : ∃ d ∈ p.conditions, d.id = c.id) : p.Refused (.pushText json) (.duplicateCondition c.id)
  | gone {id : String} (missing : ∀ d ∈ p.conditions, d.id ≠ id) : p.Refused (.remove id) (.conditionNotFound id)
  -- A tag that is no operator's is refused whether the id is there or not.
  | unknownTag {id tag : String} (unknown : ∀ o : Operator, tag ≠ o.tag) :
      p.Refused (.edit id (.operatorTag tag)) (.unknownOperator tag)
  | absent {id : String} {edit : Edit} (missing : ∀ d ∈ p.conditions, d.id ≠ id)
      (known : ∀ tag, edit = .operatorTag tag → ∃ o : Operator, tag = o.tag) :
      p.Refused (.edit id edit) (.conditionNotFound id)
  -- The text of a value is read only for a condition that is there.
  | unreadValue {id json : String} {fault : Json.Fault} (held : ∃ d ∈ p.conditions, d.id = id)
      (unread : Json.decode (Value.reader Json.room) json = .error fault) :
      p.Refused (.edit id (.valueText json)) (.malformed fault)

theorem refused_of_perform {c : Command} (refusal : p.perform c = .error e) : p.Refused c e := by
  cases c with
  | add => cases refusal
  | push c =>
    obtain ⟨held, rfl⟩ := push_eq_error_iff.mp (map_eq_error_iff.mp refusal)
    exact .taken held
  | pushText json =>
    rcases bind_eq_error_iff.mp refusal with unread | ⟨c, read, pushed⟩
    · obtain ⟨fault, stopped, rfl⟩ := decodeWith_eq_error_iff.mp unread
      exact .unread stopped
    · obtain ⟨held, rfl⟩ := push_eq_error_iff.mp (map_eq_error_iff.mp pushed)
      exact .takenText read held
  | remove id =>
    obtain ⟨missing, rfl⟩ := remove_eq_error_iff.mp (map_eq_error_iff.mp refusal)
    exact .gone missing
  | edit id edit =>
    cases edit with
    | change c =>
      obtain ⟨missing, rfl⟩ := amend_eq_error_iff.mp (map_eq_error_iff.mp refusal)
      exact .absent missing fun _ other => by cases other
    | operatorTag tag =>
      rcases bind_eq_error_iff.mp refusal with parsed | ⟨change, chosen, amended⟩
      · obtain ⟨unknown, rfl⟩ := Operator.parse_eq_error_iff.mp (map_eq_error_iff.mp parsed)
        exact .unknownTag unknown
      · obtain ⟨o, parsed, _⟩ := map_eq_ok_iff.mp chosen
        obtain ⟨missing, rfl⟩ := amend_eq_error_iff.mp (map_eq_error_iff.mp amended)
        refine .absent missing fun other same => ?_
        cases same
        exact ⟨o, Operator.parse_eq_ok_iff.mp parsed⟩
    | valueText json =>
      rw [perform] at refusal
      split at refusal
      · rename_i there
        have held := contains_iff.mp there
        rcases bind_eq_error_iff.mp refusal with read | ⟨change, _, amended⟩
        · obtain ⟨fault, stopped, rfl⟩ := decodeWith_eq_error_iff.mp (map_eq_error_iff.mp read)
          exact .unreadValue held stopped
        · obtain ⟨missing, _⟩ := amend_eq_error_iff.mp (map_eq_error_iff.mp amended)
          obtain ⟨d, member, named⟩ := held
          exact absurd named (missing d member)
      · rename_i free
        cases refusal
        exact .absent (not_contains_iff.mp (Bool.eq_false_iff.mpr free)) fun _ other => by cases other
  | combine k => cases refusal
  | clear => cases refusal

theorem perform_of_refused {c : Command} (refused : p.Refused c e) : p.perform c = .error e := by
  cases refused with
  | taken held => exact map_eq_error_iff.mpr (push_eq_error_iff.mpr ⟨held, rfl⟩)
  | unread unread => exact bind_eq_error_iff.mpr (.inl (decodeWith_eq_error_iff.mpr ⟨_, unread, rfl⟩))
  | takenText read held =>
    refine bind_eq_error_iff.mpr (.inr ⟨_, read, ?_⟩)
    exact map_eq_error_iff.mpr (push_eq_error_iff.mpr ⟨held, rfl⟩)
  | gone missing => exact map_eq_error_iff.mpr (remove_eq_error_iff.mpr ⟨missing, rfl⟩)
  | unknownTag unknown =>
    refine bind_eq_error_iff.mpr (.inl (map_eq_error_iff.mpr ?_))
    exact Operator.parse_eq_error_iff.mpr ⟨unknown, rfl⟩
  | @absent id edit missing known =>
    have amended (change : Change) : p.amend id change = .error (.conditionNotFound id) :=
      amend_eq_error_iff.mpr ⟨missing, rfl⟩
    cases edit with
    | change c => exact map_eq_error_iff.mpr (amended c)
    | operatorTag tag =>
      obtain ⟨o, named⟩ := known tag rfl
      have chosen : (Edit.operatorTag tag).change? = .ok (.operator (some o)) :=
        map_eq_ok_iff.mpr ⟨o, Operator.parse_eq_ok_iff.mpr named, rfl⟩
      exact bind_eq_error_iff.mpr (.inr ⟨_, chosen, map_eq_error_iff.mpr (amended _)⟩)
    | valueText json => simp [perform, not_contains_iff.mpr missing]
  | unreadValue held unread =>
    rw [perform, if_pos (contains_iff.mpr held)]
    refine bind_eq_error_iff.mpr (.inl (map_eq_error_iff.mpr ?_))
    exact decodeWith_eq_error_iff.mpr ⟨_, unread, rfl⟩

theorem perform_eq_error_iff {c : Command} : p.perform c = .error e ↔ p.Refused c e :=
  ⟨refused_of_perform, perform_of_refused⟩

end Panel

namespace Session

theorem step_eq_error_iff {s : Session} {x : Step} {e : Error} :
    (s.step x).1 = .error e ↔ ∃ c, x = .command c ∧ s.panel.Refused c e := by
  rcases taken : s.step x with ⟨reply, t⟩
  constructor
  · rintro rfl
    cases step_eq_iff.mp taken with
    | refused refusal => exact ⟨_, rfl, Panel.perform_eq_error_iff.mp refusal⟩
  · rintro ⟨c, rfl, refused⟩
    have refusal := step_eq_iff.mpr (.refused (Panel.perform_eq_error_iff.mpr refused))
    rw [refusal] at taken
    cases taken
    rfl

structure Shown where
  reply : Except Error Reply
  panel : Panel
  params : Params
  query : String

def shown (s : Session) : List Step → List Shown
  | [] => []
  | x :: xs =>
    let t := (s.step x).2
    ⟨(s.step x).1, t.panel, t.panel.params.value, t.panel.query.value⟩ :: t.shown xs

def accepted (s : Session) : List Step → List Step
  | [] => []
  | x :: xs => if (s.step x).1.isOk then x :: (s.step x).2.accepted xs else s.accepted xs

theorem step_not_ok {s : Session} {x : Step} (refused : ¬ (s.step x).1.isOk = true) : (s.step x).2 = s := by
  rcases taken : s.step x with ⟨reply, t⟩
  rw [taken] at refused
  cases reply with
  | error e => exact step_error taken
  | ok r => exact absurd rfl refused

theorem run_accepted (s : Session) (xs : List Step) : s.run (s.accepted xs) = s.run xs := by
  induction xs generalizing s with
  | nil => rfl
  | cons x xs ih =>
    rw [accepted, run_cons]
    split
    · rw [run_cons, ih]
    · rename_i refused
      rw [step_not_ok refused, ih]

theorem shown_accepted (s : Session) (xs : List Step) :
    s.shown (s.accepted xs) = (s.shown xs).filter (·.reply.isOk) := by
  induction xs generalizing s with
  | nil => rfl
  | cons x xs ih =>
    rw [accepted, shown, List.filter_cons]
    split
    · rw [shown, ih]
    · rename_i refused
      rw [step_not_ok refused, ih]

theorem refusal_leaves_nothing (s : Session) (xs : List Step) :
    (∀ x e, (s.step x).1 = .error e ↔ ∃ c, x = .command c ∧ s.panel.Refused c e) ∧
    (∀ x e t, s.step x = (.error e, t) → t = s) ∧
    s.run (s.accepted xs) = s.run xs ∧
    s.shown (s.accepted xs) = (s.shown xs).filter (·.reply.isOk) :=
  ⟨fun _ _ => step_eq_error_iff, fun _ _ _ => step_error, run_accepted s xs, shown_accepted s xs⟩

-- Two conditions of one id, and then one refusal for each reason among steps that are taken.
def doubled : Session := (start .builtIn).run [
  .command .add,
  .command (.push ⟨"x", some "rpt", some .equals, .flag true⟩),
  .command (.edit "x" (.change (.rename "condition-1")))]

def manyRefused : List Step := [
  .command (.push ⟨"condition-1", some "rpt", none, .absent⟩),
  .command (.remove "x"),
  .command (.edit "condition-1" (.change (.field (some "rpt")))),
  .command (.edit "x" (.operatorTag "like")),
  .command (.edit "x" (.operatorTag "eq")),
  .command (.edit "condition-1" (.valueText "[1")),
  .command (.edit "x" (.valueText "[1")),
  .command (.combine "nand"),
  .command (.edit "condition-1" (.operatorTag "eq"))]

theorem refusal_leaves_nothing_doubled :
    doubled.panel.conditions.map Condition.id = ["condition-1", "condition-1"] ∧
    doubled.step (.command (.edit "x" (.operatorTag "like"))) = (.error (.unknownOperator "like"), doubled) ∧
    (doubled.shown manyRefused).map (·.reply.isOk) =
      [false, false, true, false, false, false, false, true, true] ∧
    (doubled.accepted manyRefused).length = 3 ∧
    doubled.run (doubled.accepted manyRefused) = doubled.run manyRefused ∧
    (doubled.run manyRefused).panel.query.value = "rpt=true&rpt_operator=eq&logical_operator=nand" := by
  obtain ⟨exact, unchanged, same, _⟩ := refusal_leaves_nothing doubled manyRefused
  have refused : (doubled.step (.command (.edit "x" (.operatorTag "like")))).1 = .error (.unknownOperator "like") :=
    (exact _ _).mpr ⟨_, rfl, .unknownTag fun o => by cases o <;> decide⟩
  refine ⟨by decide +kernel, ?_, by decide +kernel, by decide +kernel, same, by decide +kernel⟩
  rcases taken : doubled.step (.command (.edit "x" (.operatorTag "like"))) with ⟨reply, t⟩
  rw [taken] at refused
  cases refused
  rw [unchanged _ _ _ taken]

end Session
end Criteria
