import Criteria.Proofs.UnderKey

namespace Criteria

-- What stands under the keys of a field.
structure KeysKept (catalog : Catalog) (conditions : List Condition) (combinator : Combinator) (f : String) :
    Prop where
  -- A key is there where a complete condition on the field, be it the last or not, has given it,
  present : ∀ a, (Params.compile catalog conditions combinator).value.contains (entryKey f a) = true ↔
    ∃ c ∈ conditions, ∃ k, c.complete catalog = .ok k ∧ k.field = f ∧ ∃ e ∈ k.aspects, e.1 = a
  -- and holds what was given for it last.
  held : ∀ a, (Params.compile catalog conditions combinator).value.get? (entryKey f a) =
    (lastEntered (criteria catalog conditions).value f a).map Content.param
  -- All that the last complete condition gives is there.
  last : ∀ c k, lastOn? catalog f conditions = some c → c.complete catalog = .ok k → ∀ e ∈ k.aspects,
    (Params.compile catalog conditions combinator).value.get? (entryKey f e.1) = some e.2.param
  -- The query string has the same under the same keys.
  tokens : ∀ a, Query.tokensUnder? (Query.compile catalog conditions combinator).value (entryKey f a) =
    some (((Params.compile catalog conditions combinator).value.get? (entryKey f a)).toList.flatMap fun p =>
      Token.ofEntry (entryKey f a, p))

theorem keysKept_of_separated {catalog : Catalog} (separated : catalog.Separated) (conditions : List Condition)
    (combinator : Combinator) {f : Field} (member : f ∈ catalog.fields) :
    KeysKept catalog conditions combinator f.id := by
  have apart := separated.entryKey_ne member
  have entries (a : Aspect) : (collected catalog conditions).get? (entryKey f.id a) =
      lastEntered (criteria catalog conditions).value f.id a := get?_merge (separated.owned conditions member a)
  have params (a : Aspect) : (Params.compile catalog conditions combinator).value.get? (entryKey f.id a) =
      (lastEntered (criteria catalog conditions).value f.id a).map Content.param := by
    rw [Params.get?_compile, entries]
    simp [apart a]
  refine ⟨fun a => ?_, params, ?_, fun a => ?_⟩
  · rw [OrderedMap.contains, params, Option.isSome_map, lastEntered_isSome_iff]
    simp only [mem_criteria]
    refine ⟨fun given => ?_, fun given => ?_⟩
    · obtain ⟨k, ⟨c, condition, completed⟩, field, part⟩ := given
      exact ⟨c, condition, k, completed, field, part⟩
    · obtain ⟨c, condition, k, completed, field, part⟩ := given
      exact ⟨k, ⟨c, condition, completed⟩, field, part⟩
  · intro c k last completed e part
    obtain ⟨same, completedToo, lastCriterion⟩ := getLast?_criteria last
    cases completed.symm.trans completedToo
    rw [params, lastEntered_of_last lastCriterion part]
    rfl
  · rw [Query.tokensUnder?_compile, params, entries]
    simp [apart a, Option.toList_map, List.flatMap_map]

theorem start_iff (k : Criterion) : (∃ e ∈ k.aspects, e.1 = .start) ↔ k.demand.operator = .between := by
  obtain ⟨id, f, demand⟩ := k
  cases demand <;> simp [Criterion.aspects, Demand.aspects, Demand.operator]

theorem stop_iff (k : Criterion) : (∃ e ∈ k.aspects, e.1 = .stop) ↔ k.demand.operator = .between := by
  obtain ⟨id, f, demand⟩ := k
  cases demand <;> simp [Criterion.aspects, Demand.aspects, Demand.operator]

theorem operator_of_date {catalog : Catalog} {f : Field} (member : f ∈ catalog.fields) (date : f.kind = .date)
    {c : Condition} {k : Criterion} (completed : c.complete catalog = .ok k) (field : k.field = f.id) :
    k.demand.operator ≠ .between ↔ k.demand.operator = .equals := by
  obtain ⟨g, operator, _, known, chosen, legal, _, _⟩ := Condition.complete_eq_ok_iff.mp completed
  have same : g = f := by
    have knownToo := Catalog.find?_eq_some_iff.mpr ⟨member, field.symm⟩
    exact Option.some.inj (known.symm.trans knownToo)
  subst same
  have supported := (catalog.sound g member).supported operator (Field.accepts_iff.mp legal)
  rw [Condition.operator_of_complete completed] at chosen
  cases Option.some.inj chosen
  rw [date] at supported
  revert supported
  cases k.demand.operator <;> decide

def Used (catalog : Catalog) (conditions : List Condition) (f : String) (o : Operator) : Prop :=
  ∃ c ∈ conditions, c.on catalog f = true ∧ c.operator = some o

theorem used_iff {catalog : Catalog} {conditions : List Condition} {f : String} {o : Operator} :
    Used catalog conditions f o ↔
      ∃ c ∈ conditions, ∃ k, c.complete catalog = .ok k ∧ k.field = f ∧ k.demand.operator = o := by
  refine exists_congr fun c => and_congr_right fun _ => ?_
  rw [Condition.on_iff]
  refine ⟨fun parts => ?_, fun parts => ?_⟩
  · obtain ⟨⟨k, completed, field⟩, chosen⟩ := parts
    rw [Condition.operator_of_complete completed] at chosen
    exact ⟨k, completed, field, Option.some.inj chosen⟩
  · obtain ⟨k, completed, field, operator⟩ := parts
    exact ⟨⟨k, completed, field⟩, by rw [Condition.operator_of_complete completed, operator]⟩

theorem date_keys_used {catalog : Catalog} {conditions : List Condition} {combinator : Combinator} {f : Field}
    (kept : KeysKept catalog conditions combinator f.id) (member : f ∈ catalog.fields) (date : f.kind = .date) :
    ((Params.compile catalog conditions combinator).value.contains f.id = true ↔
      Used catalog conditions f.id .equals) ∧
    ((Params.compile catalog conditions combinator).value.contains (entryKey f.id .start) = true ↔
      Used catalog conditions f.id .between) ∧
    ((Params.compile catalog conditions combinator).value.contains (entryKey f.id .stop) = true ↔
      Used catalog conditions f.id .between) := by
  rw [used_iff, used_iff]
  refine ⟨?_, ?_, ?_⟩
  · rw [← entryKey_value f.id, kept.present]
    refine exists_congr fun c => and_congr_right fun _ => exists_congr fun k => ?_
    refine and_congr_right fun completed => ?_
    rw [entryKey_value]
    refine and_congr_right fun field => ?_
    rw [bare_iff, operator_of_date member date completed field]
  · simp only [kept.present, start_iff]
  · simp only [kept.present, stop_iff]

theorem used_of_param {catalog : Catalog} {conditions : List Condition} {combinator : Combinator} {f : String}
    {o : Operator} (kept : KeysKept catalog conditions combinator f)
    (sent : (Params.compile catalog conditions combinator).value.get? (entryKey f .operator) = some (.text o.tag)) :
    Used catalog conditions f o := by
  rw [kept.held, lastEntered_operator, Option.map_map, Option.map_eq_some_iff] at sent
  obtain ⟨k, last, tag⟩ := sent
  obtain ⟨found, field⟩ := List.mem_filter.mp (List.mem_of_getLast? last)
  obtain ⟨c, condition, completed⟩ := mem_criteria.mp found
  have operator : k.demand.operator = o := Operator.tag_inj.mp (Param.text.inj tag)
  exact used_iff.mpr ⟨c, condition, k, completed, beq_iff_eq.mp field, operator⟩

theorem date_keys_kept {f : Field} (known : f ∈ Catalog.builtInFields) (date : f.kind = .date)
    (conditions : List Condition) (combinator : Combinator) :
    KeysKept .builtIn conditions combinator f.id ∧
    ((Params.compile .builtIn conditions combinator).value.get? (entryKey f.id .operator) = some (.text "between") →
      (Params.compile .builtIn conditions combinator).value.contains (entryKey f.id .start) = true ∧
      (Params.compile .builtIn conditions combinator).value.contains (entryKey f.id .stop) = true ∧
      ((Params.compile .builtIn conditions combinator).value.contains f.id = true ↔
        Used .builtIn conditions f.id .equals)) ∧
    ((Params.compile .builtIn conditions combinator).value.get? (entryKey f.id .operator) = some (.text "eq") →
      (Params.compile .builtIn conditions combinator).value.contains f.id = true ∧
      ((Params.compile .builtIn conditions combinator).value.contains (entryKey f.id .start) = true ↔
        Used .builtIn conditions f.id .between) ∧
      ((Params.compile .builtIn conditions combinator).value.contains (entryKey f.id .stop) = true ↔
        Used .builtIn conditions f.id .between)) := by
  have kept := keysKept_of_separated builtIn_separated conditions combinator known
  obtain ⟨day, start, stop⟩ := date_keys_used kept known date
  refine ⟨kept, fun sent => ?_, fun sent => ?_⟩
  · have used : Used .builtIn conditions f.id .between := used_of_param kept sent
    exact ⟨start.mpr used, stop.mpr used, day⟩
  · have used : Used .builtIn conditions f.id .equals := used_of_param kept sent
    exact ⟨day.mpr used, start, stop⟩

-- A day is asked for, and then a period.
def dayThenPeriod : List Condition := [
  ⟨"c1", some "created_at", some .equals, .text "2024-01-15"⟩,
  ⟨"c2", some "created_at", some .between, .period ⟨"2024-02-01", "2024-02-29"⟩⟩]

theorem date_keys_dayThenPeriod :
    (⟨"created_at", "Created at", .date, [.equals, .between]⟩ : Field) ∈ Catalog.builtInFields ∧
    (Params.compile .builtIn dayThenPeriod .and).value.get? (entryKey "created_at" .operator) =
      some (.text "between") ∧
    (Params.compile .builtIn dayThenPeriod .and).value.contains (entryKey "created_at" .start) = true ∧
    (Params.compile .builtIn dayThenPeriod .and).value.contains (entryKey "created_at" .stop) = true := by
  have known : (⟨"created_at", "Created at", .date, [.equals, .between]⟩ : Field) ∈ Catalog.builtInFields := by decide
  have sent : (Params.compile .builtIn dayThenPeriod .and).value.get? (entryKey "created_at" .operator) =
      some (.text "between") := by decide +kernel
  obtain ⟨start, stop, _⟩ := (date_keys_kept known rfl dayThenPeriod .and).2.1 sent
  exact ⟨known, sent, start, stop⟩

def OnlyLastKeys (catalog : Catalog) (conditions : List Condition) (combinator : Combinator) (f : String) : Prop :=
  ∀ c k, lastOn? catalog f conditions = some c → c.complete catalog = .ok k → ∀ a,
    (Params.compile catalog conditions combinator).value.contains (entryKey f a) = true ↔ ∃ e ∈ k.aspects, e.1 = a

theorem stale_date_key : ¬ ∀ f ∈ Catalog.builtInFields, f.kind = .date →
    ∀ (conditions : List Condition) (combinator : Combinator),
      OnlyLastKeys .builtIn conditions combinator f.id := by
  intro onlyLast
  have known : (⟨"created_at", "Created at", .date, [.equals, .between]⟩ : Field) ∈ Catalog.builtInFields := by decide
  have last : lastOn? .builtIn "created_at" dayThenPeriod =
      some ⟨"c2", some "created_at", some .between, .period ⟨"2024-02-01", "2024-02-29"⟩⟩ := by decide +kernel
  have stays : (Params.compile .builtIn dayThenPeriod .and).value.contains (entryKey "created_at" .value) = true := by
    decide +kernel
  have keys := onlyLast _ known rfl dayThenPeriod .and _ ⟨"c2", "created_at", .between "2024-02-01" "2024-02-29"⟩ last rfl
  exact (bare_iff _).mp ((keys .value).mp stays) rfl

end Criteria
