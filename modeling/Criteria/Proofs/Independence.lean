import Criteria.Proofs.Activity
import Mathlib.Data.List.Forall2

namespace Criteria

structure Condition.AsksLike (c d : Condition) : Prop where
  field : c.field = d.field
  operator : c.operator = d.operator
  value : c.value = d.value

-- Neither table has the field, or both have it, with one kind and one set of operators.
def Catalog.AgreeOn (catalog other : Catalog) (id : String) : Prop :=
  ((∀ f ∈ catalog.fields, f.id ≠ id) ∧ ∀ g ∈ other.fields, g.id ≠ id) ∨
  ∃ f ∈ catalog.fields, ∃ g ∈ other.fields, f.id = id ∧ g.id = id ∧ f.kind = g.kind ∧
    ∀ o, o ∈ f.operators ↔ o ∈ g.operators

theorem Catalog.AgreeOn.found {catalog other : Catalog} {id : String} {f : Field} (agree : catalog.AgreeOn other id)
    (known : catalog.find? id = some f) :
    ∃ g, other.find? id = some g ∧ f.kind = g.kind ∧ ∀ o, f.accepts o = g.accepts o := by
  obtain ⟨member, named⟩ := find?_eq_some_iff.mp known
  rcases agree with ⟨lacked, _⟩ | ⟨row, rowMember, g, gMember, rowNamed, gNamed, kind, operators⟩
  · exact absurd named (lacked f member)
  · have same : some f = some row := known.symm.trans (find?_eq_some_iff.mpr ⟨rowMember, rowNamed⟩)
    cases same
    refine ⟨g, find?_eq_some_iff.mpr ⟨gMember, gNamed⟩, kind, fun o => ?_⟩
    rw [Bool.eq_iff_iff, Field.accepts_iff, Field.accepts_iff]
    exact operators o

namespace Condition

theorem AsksLike.complete {catalog other : Catalog} {c d : Condition} {k : Criterion} (alike : c.AsksLike d)
    (agree : ∀ id, c.field = some id → catalog.AgreeOn other id) (completed : c.complete catalog = .ok k) :
    d.complete other = .ok ⟨d.id, k.field, k.demand⟩ := by
  obtain ⟨f, operator, named, known, chosen, legal, shaped, _⟩ := complete_eq_ok_iff.mp completed
  obtain ⟨g, found, kind, accepts⟩ := (agree k.field named).found known
  refine complete_eq_ok_iff.mpr ⟨g, operator, ?_, found, ?_, ?_, ?_, rfl⟩
  · rw [← alike.field, named]
  · rw [← alike.operator, chosen]
  · rw [← accepts, legal]
  · rw [← kind, ← alike.value, shaped]

theorem AsksLike.entries {catalog other : Catalog} {c d : Condition} (alike : c.AsksLike d)
    (agree : ∀ id, c.field = some id → catalog.AgreeOn other id) (complete : c.isComplete catalog = true) :
    c.entries catalog = d.entries other := by
  obtain ⟨k, completed⟩ := isComplete_iff.mp complete
  rw [entries_of_complete completed, entries_of_complete (alike.complete agree completed)]
  rfl

end Condition

theorem emitted_complete (catalog : Catalog) (conditions : List Condition) :
    emitted catalog (conditions.filter (·.isComplete catalog)) = emitted catalog conditions := by
  induction conditions with
  | nil => rfl
  | cons c cs ih =>
    unfold emitted at ih ⊢
    rw [List.flatMap_cons, ← ih]
    cases complete : c.isComplete catalog with
    | true => rw [List.filter_cons_of_pos complete, List.flatMap_cons]
    | false =>
      rw [List.filter_cons_of_neg (by simp [complete]), Condition.entries_eq_nil_iff.mpr complete, List.nil_append]

theorem emitted_eq_of_asksLike {catalog other : Catalog} {conditions others : List Condition}
    (alike : List.Forall₂ Condition.AsksLike conditions others)
    (complete : ∀ c ∈ conditions, c.isComplete catalog = true)
    (agree : ∀ c ∈ conditions, ∀ id, c.field = some id → catalog.AgreeOn other id) :
    emitted catalog conditions = emitted other others := by
  induction alike with
  | nil => rfl
  | @cons c d cs ds first _ ih =>
    obtain ⟨completeFirst, completeRest⟩ := List.forall_mem_cons.mp complete
    obtain ⟨agreeFirst, agreeRest⟩ := List.forall_mem_cons.mp agree
    have rest : emitted catalog cs = emitted other ds := ih completeRest agreeRest
    unfold emitted at rest ⊢
    rw [List.flatMap_cons, List.flatMap_cons, first.entries agreeFirst completeFirst, rest]

theorem collected_eq_of_asksLike {catalog other : Catalog} {conditions others : List Condition}
    (alike : List.Forall₂ Condition.AsksLike (conditions.filter (·.isComplete catalog))
      (others.filter (·.isComplete other)))
    (agree : ∀ c ∈ conditions, ∀ id, c.field = some id → catalog.AgreeOn other id) :
    collected catalog conditions = collected other others := by
  have complete : ∀ c ∈ conditions.filter (·.isComplete catalog), c.isComplete catalog = true := fun c member =>
    (List.mem_filter.mp member).2
  have agreeToo : ∀ c ∈ conditions.filter (·.isComplete catalog), ∀ id, c.field = some id → catalog.AgreeOn other id :=
    fun c member => agree c (List.mem_filter.mp member).1
  have entered := emitted_eq_of_asksLike alike complete agreeToo
  rw [emitted_complete, emitted_complete] at entered
  rw [collected_eq_ofList, collected_eq_ofList, entered]

theorem compile_eq_of_asksLike {catalog other : Catalog} {conditions others : List Condition}
    (alike : List.Forall₂ Condition.AsksLike (conditions.filter (·.isComplete catalog))
      (others.filter (·.isComplete other)))
    (agree : ∀ c ∈ conditions ++ others, ∀ id, c.field = some id → catalog.AgreeOn other id) (combinator : Combinator) :
    (Params.compile catalog conditions combinator).value = (Params.compile other others combinator).value ∧
    (Query.compile catalog conditions combinator).value = (Query.compile other others combinator).value := by
  have same : collected catalog conditions = collected other others :=
    collected_eq_of_asksLike alike fun c member => agree c (List.mem_append_left _ member)
  refine ⟨?_, ?_⟩
  · rw [Params.compile_value, Params.compile_value, same]
  · rw [Query.compile_value, Query.compile_value, same]

-- Two listings of the same advertisements: rows and operators in another order, other labels, a row to spare.

def plainFields : List Field := [
  ⟨"day", "Day", .date, [.equals, .between]⟩,
  ⟨"name", "Name", .text, [.contains]⟩]

def laidOutFields : List Field := [
  ⟨"active", "Active", .boolean, [.equals]⟩,
  ⟨"name", "", .text, [.contains]⟩,
  ⟨"day", "Shown on", .date, [.between, .equals]⟩]

theorem fieldFault?_plainFields : ∀ f ∈ plainFields, Catalog.fieldFault? f = none := by decide

theorem fieldFault?_laidOutFields : ∀ f ∈ laidOutFields, Catalog.fieldFault? f = none := by decide

def plain : Catalog where
  fields := plainFields
  sound := fun f member => Catalog.sound_of_fieldFault? (fieldFault?_plainFields f member)
  distinct := by decide

def laidOut : Catalog where
  fields := laidOutFields
  sound := fun f member => Catalog.sound_of_fieldFault? (fieldFault?_laidOutFields f member)
  distinct := by decide

def plainConditions : List Condition := [
  ⟨"c1", some "day", some .between, .period ⟨"2024-02-01", "2024-02-29"⟩⟩,
  ⟨"c2", some "name", some .contains, .text " x "⟩]

def laidOutConditions : List Condition := [
  ⟨"d1", some "name", none, .absent⟩,
  ⟨"d2", some "day", some .between, .period ⟨"2024-02-01", "2024-02-29"⟩⟩,
  ⟨"d3", some "colour", some .equals, .flag true⟩,
  ⟨"d4", none, some .contains, .text "y"⟩,
  ⟨"d5", some "name", some .contains, .text " x "⟩]

theorem compile_eq_laidOut :
    List.Forall₂ Condition.AsksLike (plainConditions.filter (·.isComplete plain))
      (laidOutConditions.filter (·.isComplete laidOut)) ∧
    (∀ c ∈ plainConditions ++ laidOutConditions, ∀ id, c.field = some id → plain.AgreeOn laidOut id) ∧
    (Params.compile plain plainConditions .or).value = (Params.compile laidOut laidOutConditions .or).value ∧
    (Query.compile plain plainConditions .or).value = (Query.compile laidOut laidOutConditions .or).value := by
  have alike : List.Forall₂ Condition.AsksLike (plainConditions.filter (·.isComplete plain))
      (laidOutConditions.filter (·.isComplete laidOut)) := by
    have left : plainConditions.filter (·.isComplete plain) = plainConditions := by decide +kernel
    have right : laidOutConditions.filter (·.isComplete laidOut) =
        [laidOutConditions[1], laidOutConditions[4]] := by decide +kernel
    rw [left, right]
    exact .cons ⟨rfl, rfl, rfl⟩ (.cons ⟨rfl, rfl, rfl⟩ .nil)
  have day : plain.AgreeOn laidOut "day" := by
    refine .inr ⟨plainFields[0], by decide, laidOutFields[2], by decide, rfl, rfl, rfl, fun o => ?_⟩
    cases o <;> decide
  have name : plain.AgreeOn laidOut "name" := by
    refine .inr ⟨plainFields[1], by decide, laidOutFields[1], by decide, rfl, rfl, rfl, fun o => ?_⟩
    cases o <;> decide
  have colour : plain.AgreeOn laidOut "colour" := .inl ⟨by decide, by decide⟩
  have agree : ∀ c ∈ plainConditions ++ laidOutConditions, ∀ id, c.field = some id → plain.AgreeOn laidOut id := by
    intro c member id named
    simp only [plainConditions, laidOutConditions, List.cons_append, List.nil_append, List.mem_cons,
      List.not_mem_nil, or_false] at member
    rcases member with rfl | rfl | rfl | rfl | rfl | rfl | rfl <;> cases named <;> assumption
  exact ⟨alike, agree, compile_eq_of_asksLike alike agree .or⟩

end Criteria
