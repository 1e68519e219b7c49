import Criteria.Proofs.UnderKey

namespace Criteria

structure OperatorKept (catalog : Catalog) (conditions : List Condition) (combinator : Combinator) (f : String)
    (o : Operator) : Prop where
  param : (Params.compile catalog conditions combinator).value.get? (entryKey f .operator) = some (.text o.tag)
  token : Query.tokensUnder? (Query.compile catalog conditions combinator).value (entryKey f .operator) =
    some [⟨entryKey f .operator, false, o.tag⟩]
  combined : Query.tokensUnder? (Query.compile catalog conditions combinator).value combinatorKey =
    some [⟨combinatorKey, false, combinator.text⟩]

-- Every field with a complete condition has the operator of the last one sent, whatever else is entered.
def Catalog.KeepsOperators (catalog : Catalog) : Prop :=
  ∀ (conditions : List Condition) (combinator : Combinator) (f : String) (c : Condition),
    lastOn? catalog f conditions = some c →
    ∃ o, c.operator = some o ∧ OperatorKept catalog conditions combinator f o

-- Only a field that offers more than periods has entries under its bare id.
structure Catalog.OperatorsApart (catalog : Catalog) : Prop where
  combinator : ∀ f ∈ catalog.fields, f.id ≠ "logical"
  bare : ∀ g ∈ catalog.fields, (∃ o ∈ g.operators, o ≠ .between) →
    g.id ≠ combinatorKey ∧ ∀ f ∈ catalog.fields, g.id ≠ entryKey f.id .operator

theorem operatorKept_of_owned {catalog : Catalog} {conditions : List Condition} {f : String} {c : Condition}
    (combinator : Combinator) (last : lastOn? catalog f conditions = some c)
    (owned : Owned (criteria catalog conditions).value f .operator)
    (own : combinatorKey ∉ (collected catalog conditions).keys) :
    ∃ o, c.operator = some o ∧ OperatorKept catalog conditions combinator f o := by
  obtain ⟨k, completed, lastCriterion⟩ := getLast?_criteria last
  have held : (collected catalog conditions).get? (entryKey f .operator) = some (.tag k.demand.operator) := by
    rw [collected, get?_merge owned, lastEntered_operator, lastCriterion]
    rfl
  have absent := OrderedMap.get?_eq_none_iff.mpr own
  have apart : entryKey f .operator ≠ combinatorKey := by
    intro same
    rw [same, absent] at held
    cases held
  refine ⟨k.demand.operator, Condition.operator_of_complete completed, ?_, ?_, ?_⟩
  · rw [Params.get?_compile, held]
    simp [apart, Content.param]
  · rw [Query.tokensUnder?_compile, held]
    simp [apart, Content.param, Token.ofEntry]
  · rw [Query.tokensUnder?_compile, absent]
    simp [OrderedMap.not_isEmpty_of_get? held]

theorem offers_of_bare {catalog : Catalog} {conditions : List Condition} {k : Criterion} {e : Aspect × Content}
    (found : k ∈ (criteria catalog conditions).value) (part : e ∈ k.aspects) (bare : e.1 = .value) :
    ∃ g ∈ catalog.fields, g.id = k.field ∧ ∃ o ∈ g.operators, o ≠ .between := by
  obtain ⟨c, _, completed⟩ := mem_criteria.mp found
  obtain ⟨g, operator, _, known, chosen, legal, _, _⟩ := Condition.complete_eq_ok_iff.mp completed
  obtain ⟨member, named⟩ := Catalog.find?_eq_some_iff.mp known
  have operators := Condition.operator_of_complete completed
  rw [chosen] at operators
  refine ⟨g, member, named, operator, Field.accepts_iff.mp legal, ?_⟩
  rw [Option.some.inj operators]
  exact (bare_iff k).mp ⟨e, part, bare⟩

theorem owned_of_apart {catalog : Catalog} (apart : catalog.OperatorsApart) (conditions : List Condition) {f : String}
    (declared : ∃ g ∈ catalog.fields, g.id = f) : Owned (criteria catalog conditions).value f .operator := by
  intro k found e part same
  rcases entryKey_eq_operator_iff.mp same with own | ⟨bare, field⟩
  · exact own
  · obtain ⟨g, member, named, offers⟩ := offers_of_bare found part bare
    obtain ⟨declaredField, declaredMember, rfl⟩ := declared
    exact absurd (named.trans field) ((apart.bare g member offers).2 declaredField declaredMember)

theorem own_of_apart {catalog : Catalog} (apart : catalog.OperatorsApart) (conditions : List Condition) :
    combinatorKey ∉ (collected catalog conditions).keys := by
  intro present
  obtain ⟨k, found, e, part, same⟩ := mem_keys_collected present
  rcases entryKey_eq_operator_iff.mp (same.trans combinatorKey_eq) with ⟨field, _⟩ | ⟨bare, field⟩
  · obtain ⟨g, member, named⟩ := declared_of_mem_criteria found
    exact apart.combinator g member (named.trans field)
  · obtain ⟨g, member, named, offers⟩ := offers_of_bare found part bare
    exact (apart.bare g member offers).1 (named.trans field)

def Content.sample : Kind → Content
  | .multiSelect => .list ["x"]
  | .boolean => .flag true
  | .date => .text "x"
  | .text => .text "x"

theorem Content.sample_not_tag (k : Kind) (o : Operator) : (sample k).param ≠ .text o.tag := by
  cases k <;> cases o <;> decide

theorem Content.sample_filled (k : Kind) : (sample k).param ≠ .list [] := by cases k <;> decide

theorem Demand.aspects_sample {k : Kind} {o : Operator} (legal : k.supports o = true) (bare : o ≠ .between) :
    (sample k o).aspects = [(.value, .sample k)] := by
  revert legal bare
  cases k <;> cases o <;> decide

theorem entryKey_operator_ne (f : String) : entryKey f .operator ≠ f := by
  intro same
  have lengths := congrArg String.length same
  simp [entryKey, Aspect.ending] at lengths

theorem get?_collected_sample {catalog : Catalog} {g : Field} {o : Operator} (member : g ∈ catalog.fields)
    (offered : o ∈ g.operators) (bare : o ≠ .between) (before : List Condition) :
    (collected catalog (before ++ [.sample g o])).get? g.id = some (.sample g.kind) := by
  have completed := Condition.complete_sample member offered
  have aspects := Demand.aspects_sample ((catalog.sound g member).supported o offered) bare
  have last : (criteria catalog (before ++ [.sample g o])).value =
      (criteria catalog before).value ++ [⟨"", g.id, .sample g.kind o⟩] := by
    simp [criteria_value, completed, Except.toOption]
  have apart : g.id ≠ entryKey g.id .operator := fun same => entryKey_operator_ne g.id same.symm
  rw [collected, last, Contents.merge, OrderedMap.get?_ofList, List.flatMap_append, List.reverse_append]
  simp [Criterion.entries, Criterion.aspects, aspects, OrderedMap.lookup_cons_eq, apart]

theorem lastOn?_sample {catalog : Catalog} {f : Field} {o : Operator} (member : f ∈ catalog.fields)
    (offered : o ∈ f.operators) {after : List Condition} (others : ∀ c ∈ after, c.on catalog f.id = false) :
    lastOn? catalog f.id (.sample f o :: after) = some (.sample f o) := by
  have nothing : after.filter (Condition.on catalog f.id) = [] := by
    rw [List.filter_eq_nil_iff]
    intro c held
    simp [others c held]
  simp [lastOn?, Condition.on_sample member offered, nothing]

namespace Catalog

theorem KeepsOperators.not_logical {catalog : Catalog} (kept : catalog.KeepsOperators) :
    ∀ f ∈ catalog.fields, f.id ≠ "logical" := by
  intro f member named
  obtain ⟨o, offered⟩ := List.exists_mem_of_ne_nil _ (catalog.sound f member).offers
  obtain ⟨p, _, sent⟩ := kept [.sample f o] .and f.id _ (lastOn?_sample member offered (by simp))
  have held := sent.param
  rw [named, ← combinatorKey_eq] at held
  have tag := combinator_of_param held
  revert tag
  cases p <;> decide

theorem KeepsOperators.not_combinatorKey {catalog : Catalog} (kept : catalog.KeepsOperators) {g : Field}
    (member : g ∈ catalog.fields) {o : Operator} (offered : o ∈ g.operators) (bare : o ≠ .between) :
    g.id ≠ combinatorKey := by
  intro named
  -- A condition on the field alone is sent under the combinator's key.
  obtain ⟨p, _, sent⟩ := kept [.sample g o] .and g.id _ (lastOn?_sample member offered (by simp))
  have held := get?_collected_sample member offered bare []
  have tokens := sent.combined
  rw [named, List.nil_append] at held
  rw [Query.tokensUnder?_compile, held] at tokens
  have extra := Token.ofEntry_ne_nil combinatorKey (Content.sample_filled g.kind)
  simp [OrderedMap.not_isEmpty_of_get? held, extra] at tokens

theorem KeepsOperators.not_operatorKey {catalog : Catalog} (kept : catalog.KeepsOperators) {g : Field}
    (member : g ∈ catalog.fields) {o : Operator} (offered : o ∈ g.operators) (bare : o ≠ .between) :
    ∀ f ∈ catalog.fields, g.id ≠ entryKey f.id .operator := by
  intro f declared named
  obtain ⟨first, firstOffered⟩ := List.exists_mem_of_ne_nil _ (catalog.sound f declared).offers
  have other : g.id ≠ f.id := fun same => entryKey_operator_ne f.id (named.symm.trans same)
  have off : ∀ c ∈ [Condition.sample g o], c.on catalog f.id = false := by
    intro c held
    rw [List.mem_singleton.mp held, Condition.on_sample member offered]
    simpa using other
  -- Entered behind a condition on the other field, one on this field is sent in the place of the other's operator.
  obtain ⟨p, _, sent⟩ := kept [.sample f first, .sample g o] .and f.id _ (lastOn?_sample declared firstOffered off)
  have apart : g.id ≠ combinatorKey := kept.not_combinatorKey member offered bare
  have held := sent.param
  have last := get?_collected_sample member offered bare [.sample f first]
  rw [← named, Params.get?_compile] at held
  rw [List.singleton_append] at last
  simp [apart, last, Content.sample_not_tag] at held

end Catalog

theorem Catalog.OperatorsApart.keepsOperators {catalog : Catalog} (apart : catalog.OperatorsApart) :
    catalog.KeepsOperators := by
  intro conditions combinator f c last
  obtain ⟨k, completed, lastCriterion⟩ := getLast?_criteria last
  obtain ⟨found, field⟩ := List.mem_filter.mp (List.mem_of_getLast? lastCriterion)
  have declared := declared_of_mem_criteria found
  rw [beq_iff_eq.mp field] at declared
  exact operatorKept_of_owned combinator last (owned_of_apart apart conditions declared)
    (own_of_apart apart conditions)

theorem keepsOperators_iff (catalog : Catalog) : catalog.KeepsOperators ↔ catalog.OperatorsApart := by
  refine ⟨fun kept => ⟨kept.not_logical, ?_⟩, fun apart => apart.keepsOperators⟩
  intro g member offers
  obtain ⟨o, offered, bare⟩ := offers
  exact ⟨kept.not_combinatorKey member offered bare, kept.not_operatorKey member offered bare⟩

theorem builtIn_operatorsApart : Catalog.builtIn.OperatorsApart := by
  refine ⟨fun f member => (builtIn_separated.combinator f member).1, fun g member _ => ?_⟩
  refine ⟨(builtIn_separated.combinator g member).2, fun f declared => ?_⟩
  exact builtIn_separated.fields g member f declared .operator (by decide)

theorem builtIn_keepsOperators : Catalog.builtIn.KeepsOperators := builtIn_operatorsApart.keepsOperators

-- Two fields of which one has the key of the other's operator for its id.
def clashingFields : List Field := [⟨"a", "", .text, [.contains]⟩, ⟨"a_operator", "", .text, [.contains]⟩]

theorem fieldFault?_clashingFields : ∀ f ∈ clashingFields, Catalog.fieldFault? f = none := by decide

def clashing : Catalog where
  fields := clashingFields
  sound := fun f member => Catalog.sound_of_fieldFault? (fieldFault?_clashingFields f member)
  distinct := by decide

def clashingConditions : List Condition := [
  ⟨"c1", some "a", some .contains, .text "x"⟩,
  ⟨"c2", some "a_operator", some .contains, .text "y"⟩]

theorem operator_replaced : ¬ ∀ catalog : Catalog, catalog.KeepsOperators := by
  intro kept
  have last : lastOn? clashing "a" clashingConditions = some ⟨"c1", some "a", some .contains, .text "x"⟩ := by
    decide +kernel
  have replaced : (Params.compile clashing clashingConditions .and).value.get? (entryKey "a" .operator) =
      some (.text "y") := by decide +kernel
  obtain ⟨o, _, sent⟩ := kept clashing clashingConditions .and "a" _ last
  have tag := sent.param
  rw [replaced] at tag
  revert tag
  cases o <;> decide

end Criteria
