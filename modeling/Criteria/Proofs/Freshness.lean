import Criteria.Edit
import Criteria.Proofs.Completion
import Mathlib.Data.List.Induction

namespace Criteria

namespace Edit

def ChangesField (e : Edit) : Prop := ∃ f, e.change? = .ok (.field f)

def ChangesOperator (e : Edit) : Prop := ∃ o, e.change? = .ok (.operator o)

def ChangesValue (e : Edit) : Prop := ∃ v, e.change? = .ok (.value v)

end Edit

-- The change was made after a history of which `given` holds, and by no edit since then that is not `idle`.
def Since (given : List Edit → Prop) (change : Change) (idle : Edit → Prop) (es : List Edit) : Prop :=
  ∃ before e after, es = before ++ e :: after ∧ given before ∧ e.change? = .ok change ∧ ∀ x ∈ after, idle x

theorem Since.now {given : List Edit → Prop} {change : Change} {es : List Edit} {e : Edit} (idle : Edit → Prop)
    (held : given es) (made : e.change? = .ok change) : Since given change idle (es ++ [e]) :=
  ⟨es, e, [], rfl, held, made, by simp⟩

theorem Since.later {given : List Edit → Prop} {change : Change} {idle : Edit → Prop} {es : List Edit} {e : Edit}
    (since : Since given change idle es) (still : idle e) : Since given change idle (es ++ [e]) := by
  obtain ⟨before, first, after, rfl, held, made, quiet⟩ := since
  refine ⟨before, first, after ++ [e], by simp, held, made, ?_⟩
  simpa [or_imp, forall_and] using ⟨quiet, still⟩

def Chosen (f : String) : List Edit → Prop :=
  Since (fun _ => True) (.field (some f)) fun e => ¬ e.ChangesField

def Applied (f : String) (o : Operator) : List Edit → Prop :=
  Since (Chosen f) (.operator (some o)) fun e => ¬ e.ChangesField ∧ ¬ e.ChangesOperator

def Entered (f : String) (o : Operator) (v : Value) : List Edit → Prop :=
  Since (Applied f o) (.value v) fun e => ¬ e.ChangesField ∧ ¬ e.ChangesOperator ∧ ¬ e.ChangesValue

-- Each part that a condition has was given to it in the history, for the parts that it has before that one.
structure Accounted (c : Condition) (es : List Edit) : Prop where
  field : ∀ f, c.field = some f → Chosen f es
  operator : ∀ f o, c.field = some f → c.operator = some o → Applied f o es
  value : ∀ f o, c.field = some f → c.operator = some o → c.value ≠ .absent → Entered f o c.value es

theorem accounted_blank (id : String) : Accounted (.blank id) [] where
  field f h := by cases h
  operator f o h := by cases h
  value f o h := by cases h

theorem Accounted.idle {c d : Condition} {es : List Edit} {e : Edit} (known : Accounted c es)
    (same : d.field = c.field ∧ d.operator = c.operator ∧ d.value = c.value)
    (idle : ¬ e.ChangesField ∧ ¬ e.ChangesOperator ∧ ¬ e.ChangesValue) : Accounted d (es ++ [e]) := by
  obtain ⟨sameField, sameOperator, sameValue⟩ := same
  refine ⟨?_, ?_, ?_⟩
  · intro f named
    exact (known.field f (sameField ▸ named)).later idle.1
  · intro f o named chosen
    exact (known.operator f o (sameField ▸ named) (sameOperator ▸ chosen)).later ⟨idle.1, idle.2.1⟩
  · intro f o named chosen given
    rw [sameValue] at given ⊢
    exact (known.value f o (sameField ▸ named) (sameOperator ▸ chosen) given).later idle

theorem Accounted.edited {c : Condition} {es : List Edit} (known : Accounted c es) (e : Edit) :
    Accounted (c.edited e) (es ++ [e]) := by
  cases made : e.change? with
  | error reason =>
    rw [Condition.edited_of_error made]
    exact known.idle ⟨rfl, rfl, rfl⟩ (by simp [Edit.ChangesField, Edit.ChangesOperator, Edit.ChangesValue, made])
  | ok change =>
    rw [Condition.edited_of_ok made]
    -- An edit of one part forgets the parts that come after it, so nothing is left to account for there.
    cases change with
    | rename id =>
      exact known.idle ⟨rfl, rfl, rfl⟩ (by simp [Edit.ChangesField, Edit.ChangesOperator, Edit.ChangesValue, made])
    | field f =>
      refine ⟨?_, ?_, ?_⟩
      · intro g named
        cases named
        exact .now _ trivial made
      · intro _ _ _ chosen
        cases chosen
      · intro _ _ _ chosen
        cases chosen
    | operator o =>
      refine ⟨?_, ?_, ?_⟩
      · intro f named
        exact (known.field f named).later (by simp [Edit.ChangesField, made])
      · intro f p named chosen
        cases chosen
        exact .now _ (known.field f named) made
      · intro _ _ _ _ given
        exact absurd rfl given
    | value v =>
      refine ⟨?_, ?_, ?_⟩
      · intro f named
        exact (known.field f named).later (by simp [Edit.ChangesField, made])
      · intro f o named chosen
        exact (known.operator f o named chosen).later (by simp [Edit.ChangesField, Edit.ChangesOperator, made])
      · intro f o named chosen _
        exact .now _ (known.operator f o named chosen) made

theorem accounted_editedAll (id : String) (es : List Edit) :
    Accounted ((Condition.blank id).editedAll es) es := by
  induction es using List.reverseRecOn with
  | nil => exact accounted_blank id
  | append_singleton es e ih =>
    rw [Condition.editedAll_append]
    exact ih.edited e

theorem Demand.given_of_ofValue {k : Kind} {o : Operator} {v : Value} {d : Demand} (shaped : ofValue k o v = .ok d) :
    v ≠ .absent := by
  intro equal
  subst equal
  cases k <;> cases o <;> cases shaped

def InTurn (f : String) (o : Operator) (v : Value) (es : List Edit) : Prop :=
  ∃ before chose between applied under gave after,
    es = before ++ chose :: (between ++ applied :: (under ++ gave :: after)) ∧
    chose.change? = .ok (.field (some f)) ∧ applied.change? = .ok (.operator (some o)) ∧
    gave.change? = .ok (.value v) ∧
    (∀ e ∈ between ++ applied :: (under ++ gave :: after), ¬ e.ChangesField) ∧
    (∀ e ∈ under ++ gave :: after, ¬ e.ChangesOperator) ∧ ∀ e ∈ after, ¬ e.ChangesValue

theorem Entered.inTurn {f : String} {o : Operator} {v : Value} {es : List Edit} (entered : Entered f o v es) :
    InTurn f o v es := by
  obtain ⟨history, gave, after, rfl, appliedFirst, setValue, still⟩ := entered
  obtain ⟨earlier, applied, under, rfl, choseFirst, setOperator, calm⟩ := appliedFirst
  obtain ⟨before, chose, between, rfl, _, setField, quiet⟩ := choseFirst
  have appliedCalm : ¬ applied.ChangesField := by simp [Edit.ChangesField, setOperator]
  have gaveCalm : ¬ gave.ChangesField ∧ ¬ gave.ChangesOperator := by
    simp [Edit.ChangesField, Edit.ChangesOperator, setValue]
  refine ⟨before, chose, between, applied, under, gave, after, by simp, setField, setOperator, setValue, ?_, ?_, ?_⟩
  · intro e member
    simp only [List.mem_append, List.mem_cons] at member
    obtain inside | rfl | inside | rfl | inside := member
    · exact quiet e inside
    · exact appliedCalm
    · exact (calm e inside).1
    · exact gaveCalm.1
    · exact (still e inside).1
  · intro e member
    simp only [List.mem_append, List.mem_cons] at member
    obtain inside | rfl | inside := member
    · exact (calm e inside).2
    · exact gaveCalm.2
    · exact (still e inside).2.1
  · exact fun e member => (still e member).2.2

theorem inTurn_of_complete {catalog : Catalog} {id : String} {es : List Edit} {k : Criterion}
    (completed : ((Condition.blank id).editedAll es).complete catalog = .ok k) :
    ∃ field v, (Condition.blank id).editedAll es = ⟨k.id, some k.field, some k.demand.operator, v⟩ ∧
      catalog.find? k.field = some field ∧ Demand.ofValue field.kind k.demand.operator v = .ok k.demand ∧
      InTurn k.field k.demand.operator v es := by
  have known := accounted_editedAll id es
  generalize (Condition.blank id).editedAll es = c at completed known
  obtain ⟨field, o, named, found, chosen, _, shaped, same⟩ := Condition.complete_eq_ok_iff.mp completed
  obtain rfl : o = k.demand.operator := (Demand.operator_ofValue shaped).symm
  have entered := known.value _ _ named chosen (Demand.given_of_ofValue shaped)
  have whole : c = ⟨k.id, some k.field, some k.demand.operator, c.value⟩ := by
    cases c
    simp_all
  exact ⟨field, c.value, whole, found, shaped, entered.inTurn⟩

-- A date entered for another field, and one entered under another operator, are gone; edits that fail change nothing.
def startedOver : List Edit := [
  .change (.field (some "created_at")),
  .change (.operator (some .equals)),
  .change (.value (.text "2024-01-15")),
  .change (.field (some "updated_at")),
  .operatorTag "like",
  .operatorTag "eq",
  .change (.value (.text "2024-01-16")),
  .change (.operator (some .between)),
  .valueText "[\"2024-02-01\",",
  .valueText "[\"2024-02-01\",\"2024-02-29\"]",
  .change (.rename "d")]

theorem inTurn_startedOver :
    ((Condition.blank "c").editedAll startedOver).complete .builtIn =
      .ok ⟨"d", "updated_at", .between "2024-02-01" "2024-02-29"⟩ ∧
    ∃ v, ((Condition.blank "c").editedAll startedOver).value = v ∧ InTurn "updated_at" .between v startedOver := by
  have completed : ((Condition.blank "c").editedAll startedOver).complete .builtIn =
      .ok ⟨"d", "updated_at", .between "2024-02-01" "2024-02-29"⟩ := by decide +kernel
  obtain ⟨_, v, whole, _, _, inTurn⟩ := inTurn_of_complete completed
  exact ⟨completed, v, by rw [whole], inTurn⟩

end Criteria
