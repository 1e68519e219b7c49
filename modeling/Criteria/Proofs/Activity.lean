import Criteria.Panel
import Criteria.Proofs.Merge

namespace Criteria

theorem Condition.isSome_toOption_complete (catalog : Catalog) (c : Condition) :
    (c.complete catalog).toOption.isSome = c.isComplete catalog := by
  rw [isComplete]
  cases c.complete catalog <;> rfl

theorem length_criteria (catalog : Catalog) (conditions : List Condition) :
    (criteria catalog conditions).value.length = conditions.countP (·.isComplete catalog) := by
  rw [criteria_value, List.length_filterMap_eq_countP]
  simp only [Condition.isSome_toOption_complete]

theorem Criterion.entries_ne_nil (k : Criterion) : k.entries ≠ [] := by
  simp [entries, aspects]

theorem Condition.entries_eq_nil_iff {catalog : Catalog} {c : Condition} :
    c.entries catalog = [] ↔ c.isComplete catalog = false := by
  cases completed : c.complete catalog with
  | error reason => simp [entries, isComplete, completed, Except.isOk, Except.toBool]
  | ok k =>
    have given := k.entries_ne_nil
    simp [entries, isComplete, completed, given, Except.isOk, Except.toBool]

theorem isEmpty_collected_iff {catalog : Catalog} {conditions : List Condition} :
    (collected catalog conditions).isEmpty = true ↔ ∀ c ∈ conditions, c.isComplete catalog = false := by
  rw [isEmpty_collected, emitted, List.flatMap_eq_nil_iff]
  exact forall₂_congr fun c _ => Condition.entries_eq_nil_iff

theorem Params.isEmpty_compile (catalog : Catalog) (conditions : List Condition) (combinator : Combinator) :
    (compile catalog conditions combinator).value.isEmpty = (collected catalog conditions).isEmpty := by
  rw [compile_value, withCombinator, OrderedMap.isEmpty_map]
  cases empty : (collected catalog conditions).isEmpty with
  | true => simp [empty]
  | false => simp [OrderedMap.isEmpty_insert]

theorem Params.combinator?_compile (catalog : Catalog) (conditions : List Condition) (combinator : Combinator) :
    (compile catalog conditions combinator).value.combinator? =
      if (collected catalog conditions).isEmpty then none else some combinator.text := by
  rw [combinator?, get?_compile]
  cases empty : (collected catalog conditions).isEmpty with
  | true => simp [OrderedMap.get?_of_isEmpty empty]
  | false => simp [Param.text?]

theorem Query.compile_eq_empty_iff {catalog : Catalog} {conditions : List Condition} {combinator : Combinator} :
    (compile catalog conditions combinator).value = "" ↔ (collected catalog conditions).isEmpty = true := by
  rw [compile_value, sent]
  cases empty : (collected catalog conditions).isEmpty with
  | true => simp [render]
  | false =>
    simp only [Bool.false_eq_true, if_false, iff_false]
    exact render_ne_empty (by simp)

namespace Panel

theorem hasActive_eq (p : Panel) : p.hasActive = !(collected p.catalog p.conditions).isEmpty := by
  cases empty : (collected p.catalog p.conditions).isEmpty with
  | true =>
    have idle := isEmpty_collected_iff.mp empty
    simpa [hasActive] using idle
  | false =>
    have active : ¬ ∀ c ∈ p.conditions, c.isComplete p.catalog = false := by
      rw [← isEmpty_collected_iff, empty]
      simp
    simpa [hasActive] using active

theorem hasActive_iff_activeCount (p : Panel) : p.hasActive = true ↔ 0 < p.activeCount := by
  rw [hasActive, activeCount, length_criteria, List.any_eq_true, List.countP_pos_iff]

theorem views_agree (p : Panel) :
    (p.hasActive = true ↔ 0 < p.activeCount) ∧
    (p.hasActive = true ↔ p.params.value.isEmpty = false) ∧
    (p.hasActive = true ↔ p.query.value ≠ "") ∧
    (p.hasActive = true ↔ p.params.value.combinator?.isSome = true) ∧
    (p.hasActive = true ↔ p.params.value.combinator? = some p.combinator.text) ∧
    (p.hasActive = false ↔ p.params.value.keys = [] ∧ p.query.value = "") ∧
    p.activeCount = p.conditions.countP (·.isComplete p.catalog) := by
  have params : p.params.value.isEmpty = (collected p.catalog p.conditions).isEmpty := Params.isEmpty_compile ..
  have combined : p.params.value.combinator? = _ := Params.combinator?_compile p.catalog p.conditions p.combinator
  have query : p.query.value = "" ↔ (collected p.catalog p.conditions).isEmpty = true := Query.compile_eq_empty_iff
  have keys : p.params.value.keys = [] ↔ p.params.value.isEmpty = true := by
    rw [OrderedMap.isEmpty_iff]
    exact List.map_eq_nil_iff
  refine ⟨p.hasActive_iff_activeCount, ?_, ?_, ?_, ?_, ?_, length_criteria _ _⟩
  · rw [params, hasActive_eq, Bool.not_eq_true']
  · rw [ne_eq, query, hasActive_eq, Bool.not_eq_true', Bool.not_eq_true]
  · rw [combined, hasActive_eq]
    cases (collected p.catalog p.conditions).isEmpty <;> simp
  · rw [combined, hasActive_eq]
    cases (collected p.catalog p.conditions).isEmpty <;> simp
  · rw [keys, query, params, and_self, hasActive_eq, Bool.not_eq_false']

end Panel
end Criteria
