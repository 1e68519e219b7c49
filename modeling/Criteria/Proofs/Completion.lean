import Criteria.Criterion

namespace Criteria

theorem Condition.complete_eq_ok_iff {catalog : Catalog} {c : Condition} {k : Criterion} :
    c.complete catalog = .ok k ↔ ∃ field operator, c.field = some k.field ∧ catalog.find? k.field = some field ∧
      c.operator = some operator ∧ field.accepts operator = true ∧
      Demand.ofValue field.kind operator c.value = .ok k.demand ∧ c.id = k.id := by
  refine ⟨fun completed => ?_, fun parts => ?_⟩
  · unfold complete at completed
    split at completed
    · cases completed
    · rename_i id named
      split at completed
      · cases completed
      · rename_i field known
        split at completed
        · cases completed
        · rename_i operator chosen
          split at completed
          · rename_i legal
            cases shaped : Demand.ofValue field.kind operator c.value with
            | error reason =>
              rw [shaped] at completed
              cases completed
            | ok demand =>
              rw [shaped] at completed
              cases completed
              exact ⟨field, operator, named, known, chosen, legal, shaped, rfl⟩
          · cases completed
  · obtain ⟨field, operator, named, known, chosen, legal, shaped, same⟩ := parts
    simp [complete, named, known, chosen, legal, shaped, same, Except.map]

theorem Condition.operator_of_complete {catalog : Catalog} {c : Condition} {k : Criterion}
    (completed : c.complete catalog = .ok k) : c.operator = some k.demand.operator := by
  obtain ⟨field, operator, _, _, chosen, _, shaped, _⟩ := complete_eq_ok_iff.mp completed
  rw [chosen, Demand.operator_ofValue shaped]

theorem Condition.field_of_complete {catalog : Catalog} {c : Condition} {k : Criterion}
    (completed : c.complete catalog = .ok k) : c.field = some k.field := by
  obtain ⟨_, _, named, _⟩ := complete_eq_ok_iff.mp completed
  exact named

theorem Condition.declared_of_complete {catalog : Catalog} {c : Condition} {k : Criterion}
    (completed : c.complete catalog = .ok k) : ∃ f ∈ catalog.fields, f.id = k.field := by
  obtain ⟨f, _, _, known, _⟩ := complete_eq_ok_iff.mp completed
  exact ⟨f, Catalog.find?_eq_some_iff.mp known⟩

theorem Condition.isComplete_iff {catalog : Catalog} {c : Condition} :
    c.isComplete catalog = true ↔ ∃ k, c.complete catalog = .ok k := by
  unfold isComplete
  cases c.complete catalog <;> simp [Except.isOk, Except.toBool]

theorem mem_criteria {catalog : Catalog} {cs : List Condition} {k : Criterion} :
    k ∈ (criteria catalog cs).value ↔ ∃ c ∈ cs, c.complete catalog = .ok k := by
  rw [criteria_value, List.mem_filterMap]
  refine exists_congr fun c => and_congr_right fun _ => ?_
  cases c.complete catalog <;> simp [Except.toOption]

theorem declared_of_mem_criteria {catalog : Catalog} {cs : List Condition} {k : Criterion}
    (found : k ∈ (criteria catalog cs).value) : ∃ f ∈ catalog.fields, f.id = k.field := by
  obtain ⟨c, _, completed⟩ := mem_criteria.mp found
  exact Condition.declared_of_complete completed

def Condition.on (catalog : Catalog) (f : String) (c : Condition) : Bool :=
  c.isComplete catalog && c.field == some f

def lastOn? (catalog : Catalog) (f : String) (cs : List Condition) : Option Condition :=
  (cs.filter (Condition.on catalog f)).getLast?

theorem Condition.on_iff {catalog : Catalog} {f : String} {c : Condition} :
    c.on catalog f = true ↔ ∃ k, c.complete catalog = .ok k ∧ k.field = f := by
  rw [on, Bool.and_eq_true, isComplete_iff, beq_iff_eq]
  refine ⟨fun parts => ?_, fun parts => ?_⟩
  · obtain ⟨⟨k, completed⟩, named⟩ := parts
    rw [field_of_complete completed] at named
    exact ⟨k, completed, Option.some.inj named⟩
  · obtain ⟨k, completed, field⟩ := parts
    exact ⟨⟨k, completed⟩, by rw [field_of_complete completed, field]⟩

theorem criteria_on (catalog : Catalog) (f : String) (cs : List Condition) :
    (criteria catalog cs).value.filter (·.field == f) =
      (cs.filter (Condition.on catalog f)).filterMap fun c => (c.complete catalog).toOption := by
  rw [criteria_value]
  induction cs with
  | nil => rfl
  | cons c cs ih =>
    cases completed : c.complete catalog with
    | error reason =>
      have nothing : (c.complete catalog).toOption = none := by rw [completed]; rfl
      have off : c.on catalog f = false := by
        rw [Bool.eq_false_iff, ne_eq, Condition.on_iff, completed]
        simp
      simp [nothing, off, ih]
    | ok k =>
      have given : (c.complete catalog).toOption = some k := by rw [completed]; rfl
      by_cases field : k.field = f
      · have on : c.on catalog f = true := Condition.on_iff.mpr ⟨k, completed, field⟩
        simp [given, on, field, ih]
      · have off : c.on catalog f = false := by
          rw [Bool.eq_false_iff, ne_eq, Condition.on_iff, completed]
          simpa using field
        simp [given, off, field, ih]

theorem getLast?_criteria {catalog : Catalog} {f : String} {cs : List Condition} {c : Condition}
    (last : lastOn? catalog f cs = some c) :
    ∃ k, c.complete catalog = .ok k ∧ ((criteria catalog cs).value.filter (·.field == f)).getLast? = some k := by
  obtain ⟨before, whole⟩ := List.getLast?_eq_some_iff.mp last
  have member : c ∈ cs.filter (Condition.on catalog f) := by
    rw [whole]
    simp
  obtain ⟨k, completed, _⟩ := Condition.on_iff.mp (List.mem_filter.mp member).2
  refine ⟨k, completed, ?_⟩
  rw [criteria_on, whole, List.filterMap_append]
  simp [completed, Except.toOption]

def Value.sample : Kind → Operator → Value
  | .multiSelect, _ => .selection ["x"]
  | .boolean, _ => .flag true
  | .date, .between => .period ⟨"x", "x"⟩
  | .date, _ => .text "x"
  | .text, _ => .text "x"

def Demand.sample : Kind → Operator → Demand
  | .multiSelect, .isIn => .anyOf ["x"]
  | .multiSelect, _ => .noneOf ["x"]
  | .boolean, _ => .flag true
  | .date, .between => .between "x" "x"
  | .date, _ => .onDate "x"
  | .text, _ => .contains "x"

def Condition.sample (f : Field) (o : Operator) : Condition := ⟨"", some f.id, some o, .sample f.kind o⟩

theorem Demand.ofValue_sample {k : Kind} {o : Operator} (legal : k.supports o = true) :
    ofValue k o (.sample k o) = .ok (sample k o) := by
  have trimmed : Text.trim "x" = "x" := by decide
  revert legal
  cases k <;> cases o <;>
    simp [Kind.supports, Kind.allowed, ofValue, Value.sample, sample, ofSelection, ofPeriod, ofDate, ofText, trimmed]

theorem Condition.complete_sample {catalog : Catalog} {f : Field} {o : Operator} (member : f ∈ catalog.fields)
    (offered : o ∈ f.operators) :
    (sample f o).complete catalog = .ok ⟨"", f.id, .sample f.kind o⟩ :=
  complete_eq_ok_iff.mpr ⟨f, o, rfl, Catalog.find?_eq_some_iff.mpr ⟨member, rfl⟩, rfl, Field.accepts_iff.mpr offered,
    Demand.ofValue_sample ((catalog.sound f member).supported o offered), rfl⟩

theorem Condition.on_sample {catalog : Catalog} {f : Field} {o : Operator} (member : f ∈ catalog.fields)
    (offered : o ∈ f.operators) (id : String) : (sample f o).on catalog id = (f.id == id) := by
  have completed := isComplete_iff.mpr ⟨_, complete_sample member offered⟩
  have named : (sample f o).field = some f.id := rfl
  rw [on, completed, named]
  simp

end Criteria
