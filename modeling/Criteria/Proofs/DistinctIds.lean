import Criteria.Proofs.NumberedIds
import Criteria.Proofs.Runs

namespace Criteria

theorem nodup_ids_middle {before after : List Condition} {c : Condition} :
    ((before ++ c :: after).map Condition.id).Nodup ↔
      (∀ d ∈ before ++ after, d.id ≠ c.id) ∧ ((before ++ after).map Condition.id).Nodup := by
  rw [(List.perm_middle.map Condition.id).nodup_iff, List.map_cons, List.nodup_cons, List.mem_map]
  simp only [not_exists, not_and, ne_eq]

theorem Edit.eq_rename_of_change? {e : Edit} {new : String} (chosen : e.change? = .ok (.rename new)) :
    e = .change (.rename new) := by
  cases e with
  | change c =>
    cases chosen
    rfl
  | operatorTag tag =>
    unfold change? at chosen
    cases parsed : Operator.parse tag <;> simp [parsed, Except.map] at chosen
  | valueText json =>
    unfold change? at chosen
    cases read : Value.decode json <;> simp [read, Except.map] at chosen

namespace Panel

def Distinct (p : Panel) : Prop := (p.conditions.map Condition.id).Nodup

def Ends (p : Panel) : Command → Prop
  | .add => ∃ n, p.contains (numberedId n) = false
  | _ => True

-- A condition that is there is renamed to an id that no other has.
def RenamesApart (p : Panel) : Command → Prop
  | .edit id (.change (.rename new)) => p.contains id = true → new = id ∨ p.contains new = false
  | _ => True

theorem distinct_append {p : Panel} {c : Condition} (distinct : p.Distinct) (free : p.contains c.id = false) :
    ((p.conditions ++ [c]).map Condition.id).Nodup := by
  rw [nodup_ids_middle, List.append_nil]
  exact ⟨not_contains_iff.mp free, distinct⟩

theorem others_of_first {p : Panel} {id : String} {before after : List Condition} {c : Condition}
    (distinct : p.Distinct) (first : First id p.conditions before c after) :
    (∀ d ∈ before ++ after, d.id ≠ id) ∧ ((before ++ after).map Condition.id).Nodup := by
  rw [Distinct, first.whole, nodup_ids_middle, first.named] at distinct
  exact distinct

theorem Performed.distinct {p q : Panel} {c : Command} {r : Reply} (done : p.Performed c r q) (ends : p.Ends c)
    (apart : p.RenamesApart c) (distinct : p.Distinct) : q.Distinct := by
  cases done with
  | add =>
    rw [add_eq]
    exact distinct_append distinct (newNumber_free (exists_free_iff.mp ends))
  | push free => exact distinct_append distinct free
  | pushText read free => exact distinct_append distinct free
  | remove first => exact (others_of_first distinct first).2
  | @edit id e change before after c chosen first =>
    obtain ⟨others, rest⟩ := others_of_first distinct first
    refine nodup_ids_middle.mpr ⟨?_, rest⟩
    cases change with
    | rename new =>
      cases Edit.eq_rename_of_change? chosen
      rcases apart (contains_of_first first) with same | free
      · rwa [Condition.id_apply_rename, same]
      · rw [Condition.id_apply_rename]
        exact fun d member => not_contains_iff.mp free d (first.others_subset member)
    | field f => rwa [Condition.id_apply_field, first.named]
    | operator o => rwa [Condition.id_apply_operator, first.named]
    | value v => rwa [Condition.id_apply_value, first.named]
  | combine => exact distinct
  | clear => exact List.nodup_nil

-- One condition has the id, and every use of the id comes to that condition.
structure Stands (p : Panel) (id : String) (before : List Condition) (c : Condition) (after : List Condition) : Prop where
  whole : p.conditions = before ++ c :: after
  named : c.id = id
  others : ∀ d ∈ before ++ after, d.id ≠ id
  held : p.contains id = true
  found : p.find? id = some c
  amended : ∀ change, p.amend id change = .ok { p with conditions := before ++ c.apply change :: after }
  removed : p.remove id = .ok (c, { p with conditions := before ++ after })

structure Missing (p : Panel) (id : String) : Prop where
  others : ∀ d ∈ p.conditions, d.id ≠ id
  held : p.contains id = false
  found : p.find? id = none
  amended : ∀ change, p.amend id change = .error (.conditionNotFound id)
  removed : p.remove id = .error (.conditionNotFound id)

theorem stands_of_first {p : Panel} {id : String} {before after : List Condition} {c : Condition}
    (distinct : p.Distinct) (first : First id p.conditions before c after) : p.Stands id before c after where
  whole := first.whole
  named := first.named
  others := (others_of_first distinct first).1
  held := contains_of_first first
  found := first.find?_eq
  amended := amend_first first
  removed := remove_first first

theorem missing_of_not_contains {p : Panel} {id : String} (free : p.contains id = false) : p.Missing id := by
  have nothing : p.find? id = none := by
    rw [← Option.isNone_iff_eq_none, ← Option.not_isSome, find?_isSome, free]
    rfl
  refine ⟨not_contains_iff.mp free, free, nothing, fun change => ?_, ?_⟩
  · simp [amend, free]
  · simp [remove, nothing]

theorem missing_of_remove {p q : Panel} {id : String} {c : Condition} (distinct : p.Distinct)
    (removed : p.remove id = .ok (c, q)) : q.Missing id := by
  obtain ⟨before, after, first, rfl⟩ := exists_first_of_remove removed
  exact missing_of_not_contains (not_contains_iff.mpr (others_of_first distinct first).1)

end Panel

theorem Session.start_distinct (catalog : Catalog) : (start catalog).Both Panel.Distinct :=
  ⟨List.nodup_nil, by simp [start]⟩

theorem Session.run_distinct {s : Session} {steps : List Step} (apart : s.Throughout Panel.RenamesApart steps)
    (ends : s.Throughout Panel.Ends steps) (start : s.Both Panel.Distinct) : (s.run steps).Both Panel.Distinct :=
  run_both (fun _ => Panel.Distinct) (fun _ _ distinct => distinct)
    (fun _ _ _ _ _ asked done distinct => done.distinct asked.2 asked.1 distinct) 0 (throughout_and apart ends) start

theorem Panel.ends_of_size {p : Panel} (small : p.size < 2 ^ 64) (c : Command) : p.Ends c := by
  cases c with
  | add => exact exists_free_iff.mpr (Nat.lt_of_le_of_lt p.skipped_le small)
  | _ => trivial

theorem Session.ends_of_short (catalog : Catalog) {steps : List Step} (short : steps.length ≤ 2 ^ 64) :
    (start catalog).Throughout Panel.Ends steps := by
  have whole : 0 + steps.length ≤ 2 ^ 64 := by omega
  refine throughout_of_both (fun n p => p.size ≤ n) (fun n p small => Nat.le_succ_of_le small) ?_ ?_ 0 whole
    ⟨Nat.le_refl _, by simp [start]⟩
  · intro n p c r q _ done small
    exact Nat.le_trans done.size_le (Nat.succ_le_succ small)
  · intro n p c less small
    exact Panel.ends_of_size (Nat.lt_of_le_of_lt small less) c

theorem ids_distinct (catalog : Catalog) {steps : List Step}
    (apart : (Session.start catalog).Throughout Panel.RenamesApart steps) :
    (steps.length ≤ 2 ^ 64 → (Session.start catalog).Throughout Panel.Ends steps) ∧
    ((Session.start catalog).Throughout Panel.Ends steps →
      (((Session.start catalog).run steps).panel.conditions.map Condition.id).Nodup ∧
      (∀ id, (∃ before c after, ((Session.start catalog).run steps).panel.Stands id before c after) ∨
        ((Session.start catalog).run steps).panel.Missing id) ∧
      ∀ id c q, ((Session.start catalog).run steps).panel.remove id = .ok (c, q) → q.contains id = false) := by
  refine ⟨Session.ends_of_short catalog, fun ends => ?_⟩
  have distinct := (Session.run_distinct apart ends (Session.start_distinct catalog)).1
  refine ⟨distinct, fun id => ?_, fun id c q removed => (Panel.missing_of_remove distinct removed).held⟩
  cases held : ((Session.start catalog).run steps).panel.contains id with
  | false => exact .inr (Panel.missing_of_not_contains held)
  | true =>
    obtain ⟨before, c, after, first⟩ := Panel.exists_first_of_contains held
    exact .inl ⟨before, c, after, Panel.stands_of_first distinct first⟩

-- The copy brings the counter back with it, and the number that comes next then is taken by a new name.
def broughtBack : List Step := [
  .command .add,
  .command (.push ⟨"x", some "rpt", some .equals, .flag true⟩),
  .save,
  .command .add,
  .command (.edit "condition-1" (.change (.rename "y"))),
  .command (.edit "x" (.change (.rename "x"))),
  .restore,
  .command (.edit "condition-1" (.change (.rename "condition-2"))),
  .command .add]

theorem ids_distinct_broughtBack :
    (Session.start .builtIn).Throughout Panel.RenamesApart broughtBack ∧
    (Session.start .builtIn).Throughout Panel.Ends broughtBack ∧
    ((Session.start .builtIn).run broughtBack).panel.conditions.map Condition.id =
      ["condition-2", "x", "condition-3"] ∧
    (((Session.start .builtIn).run broughtBack).panel.conditions.map Condition.id).Nodup ∧
    ∀ c q, ((Session.start .builtIn).run broughtBack).panel.remove "x" = .ok (c, q) → q.contains "x" = false := by
  have apart : (Session.start .builtIn).Throughout Panel.RenamesApart broughtBack := by
    refine ⟨?_, ?_, ?_, ?_, ?_, ?_, ?_, ?_, ?_, trivial⟩ <;> rintro c ⟨⟩ <;> try trivial
    · exact fun _ => .inr (by decide +kernel)
    · exact fun _ => .inl rfl
    · exact fun _ => .inr (by decide +kernel)
  obtain ⟨short, distinct⟩ := ids_distinct .builtIn apart
  have ends := short (by decide)
  obtain ⟨ids, _, gone⟩ := distinct ends
  exact ⟨apart, ends, by decide +kernel, ids, gone "x"⟩

end Criteria
