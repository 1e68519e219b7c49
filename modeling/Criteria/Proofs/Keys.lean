import Criteria.Proofs.Compiled

namespace Criteria

@[simp] theorem entryKey_value (f : String) : entryKey f .value = f := by simp [entryKey, Aspect.ending]

theorem combinatorKey_eq : combinatorKey = entryKey "logical" .operator := rfl

theorem Aspect.ending_inj {a b : Aspect} (ended : a ≠ .value) (endedToo : b ≠ .value)
    (same : a.ending.toList.getLast? = b.ending.toList.getLast?) : a = b := by
  revert ended endedToo same
  cases a <;> cases b <;> decide

theorem getLast?_entryKey {f : String} {a : Aspect} (ended : a ≠ .value) :
    (entryKey f a).toList.getLast? = a.ending.toList.getLast? := by
  cases a <;> simp_all [entryKey, Aspect.ending]

theorem entryKey_ended {f g : String} {a b : Aspect} (ended : a ≠ .value) (endedToo : b ≠ .value)
    (same : entryKey f a = entryKey g b) : f = g ∧ a = b := by
  have last := congrArg (fun s => s.toList.getLast?) same
  rw [getLast?_entryKey ended, getLast?_entryKey endedToo] at last
  have aspects := Aspect.ending_inj ended endedToo last
  subst aspects
  exact ⟨(String.append_left_inj _).mp same, rfl⟩

theorem entryKey_eq_iff {f g : String} {a b : Aspect} :
    entryKey f a = entryKey g b ↔
      (f = g ∧ a = b) ∨ (a = .value ∧ b ≠ .value ∧ f = entryKey g b) ∨ (b = .value ∧ a ≠ .value ∧ g = entryKey f a) := by
  by_cases plain : a = .value
  · subst plain
    by_cases plainToo : b = .value
    · subst plainToo
      simp
    · have other : Aspect.value ≠ b := fun equal => plainToo equal.symm
      simp [plainToo, other]
  · by_cases plainToo : b = .value
    · subst plainToo
      simp [plain, eq_comm]
    · simp only [plain, plainToo, false_and, or_false]
      refine ⟨entryKey_ended plain plainToo, fun parts => ?_⟩
      rw [parts.1, parts.2]

theorem entryKey_eq_operator_iff {f g : String} {b : Aspect} :
    entryKey g b = entryKey f .operator ↔ (g = f ∧ b = .operator) ∨ (b = .value ∧ g = entryKey f .operator) := by
  simp [entryKey_eq_iff]

theorem mem_keys_collected {catalog : Catalog} {conditions : List Condition} {key : String}
    (present : key ∈ (collected catalog conditions).keys) :
    ∃ k ∈ (criteria catalog conditions).value, ∃ e ∈ k.aspects, entryKey k.field e.1 = key := by
  obtain ⟨held, member, rfl⟩ := List.mem_map.mp present
  obtain ⟨k, found, given⟩ := List.mem_flatMap.mp (OrderedMap.mem_of_mem_ofList member)
  obtain ⟨e, part, rfl⟩ := List.mem_map.mp given
  exact ⟨k, found, e, part, rfl⟩

-- A field's key under which no other aspect, of this field or another, was entered.
def Owned (found : List Criterion) (f : String) (a : Aspect) : Prop :=
  ∀ k ∈ found, ∀ e ∈ k.aspects, entryKey k.field e.1 = entryKey f a → k.field = f ∧ e.1 = a

def entered (found : List Criterion) (f : String) : List (Aspect × Content) :=
  (found.filter (·.field == f)).flatMap Criterion.aspects

def lastEntered (found : List Criterion) (f : String) (a : Aspect) : Option Content :=
  (entered found f).reverse.lookup a

theorem lookup_keyed {g f : String} {a : Aspect} {es : List (Aspect × Content)}
    (owned : ∀ e ∈ es, entryKey g e.1 = entryKey f a → g = f ∧ e.1 = a) :
    (es.map fun e => (entryKey g e.1, e.2)).lookup (entryKey f a) = if g = f then es.lookup a else none := by
  induction es with
  | nil => simp
  | cons e es ih =>
    obtain ⟨b, v⟩ := e
    have rest := ih fun d member => owned d (List.mem_cons_of_mem _ member)
    rw [List.map_cons, OrderedMap.lookup_cons_eq, rest, List.lookup_cons]
    by_cases same : entryKey f a = entryKey g b
    · obtain ⟨field, aspect⟩ := owned (b, v) (by simp) same.symm
      have aspect : b = a := aspect
      subst field aspect
      simp
    · by_cases field : g = f
      · have other : a ≠ b := fun equal => same (by rw [field, equal])
        have apart : (a == b) = false := by simpa using other
        rw [if_neg same]
        simp [field, apart]
      · simp [same, field]

theorem lookup_entries {k : Criterion} {f : String} {a : Aspect}
    (owned : ∀ e ∈ k.aspects, entryKey k.field e.1 = entryKey f a → k.field = f ∧ e.1 = a) :
    k.entries.reverse.lookup (entryKey f a) = if k.field = f then k.aspects.reverse.lookup a else none := by
  rw [Criterion.entries, ← List.map_reverse]
  exact lookup_keyed fun e member => owned e (List.mem_reverse.mp member)

theorem get?_merge {found : List Criterion} {f : String} {a : Aspect} (owned : Owned found f a) :
    (Contents.merge found).get? (entryKey f a) = lastEntered found f a := by
  rw [Contents.merge, OrderedMap.get?_ofList, lastEntered, entered]
  induction found with
  | nil => rfl
  | cons k found ih =>
    have rest := ih fun other member => owned other (List.mem_cons_of_mem _ member)
    rw [List.flatMap_cons, List.reverse_append, List.lookup_append, rest, lookup_entries (owned k (by simp))]
    by_cases field : k.field = f
    · simp [field, List.lookup_append]
    · simp [field]

theorem lastEntered_isSome_iff {found : List Criterion} {f : String} {a : Aspect} :
    (lastEntered found f a).isSome = true ↔ ∃ k ∈ found, k.field = f ∧ ∃ e ∈ k.aspects, e.1 = a := by
  simp only [lastEntered, entered, List.lookup_isSome_iff, List.mem_reverse, List.mem_flatMap, List.mem_filter,
    beq_iff_eq]
  refine ⟨fun held => ?_, fun held => ?_⟩
  · obtain ⟨e, ⟨k, ⟨member, field⟩, part⟩, aspect⟩ := held
    exact ⟨k, member, field, e, part, aspect.symm⟩
  · obtain ⟨k, member, field, e, part, aspect⟩ := held
    exact ⟨e, ⟨k, ⟨member, field⟩, part⟩, aspect.symm⟩

theorem lastEntered_operator (found : List Criterion) (f : String) :
    lastEntered found f .operator = (found.filter (·.field == f)).getLast?.map fun k => .tag k.demand.operator := by
  rw [lastEntered, entered]
  rcases List.eq_nil_or_concat (found.filter (·.field == f)) with none | ⟨before, last, whole⟩
  · simp [none]
  · simp [whole, Criterion.aspects]

theorem nodup_aspects (k : Criterion) : (k.aspects.map Prod.fst).Nodup := by
  obtain ⟨id, f, demand⟩ := k
  cases demand <;> simp [Criterion.aspects, Demand.aspects]

theorem bare_iff (k : Criterion) : (∃ e ∈ k.aspects, e.1 = .value) ↔ k.demand.operator ≠ .between := by
  obtain ⟨id, f, demand⟩ := k
  cases demand <;> simp [Criterion.aspects, Demand.aspects, Demand.operator]

theorem lastEntered_of_last {found : List Criterion} {f : String} {k : Criterion}
    (last : (found.filter (·.field == f)).getLast? = some k) {e : Aspect × Content} (part : e ∈ k.aspects) :
    lastEntered found f e.1 = some e.2 := by
  obtain ⟨before, whole⟩ := List.getLast?_eq_some_iff.mp last
  have distinct : (k.aspects.reverse.map Prod.fst).Nodup := by
    rw [List.map_reverse]
    exact (List.reverse_perm _).nodup_iff.mpr (nodup_aspects k)
  have held : k.aspects.reverse.lookup e.1 = some e.2 := lookup_of_mem distinct (List.mem_reverse.mpr part)
  simp [lastEntered, entered, whole, List.lookup_append, held]

-- No id is a key of another field, or gives the combinator's.
structure Catalog.Separated (catalog : Catalog) : Prop where
  fields : ∀ f ∈ catalog.fields, ∀ g ∈ catalog.fields, ∀ a, a ≠ .value → f.id ≠ entryKey g.id a
  combinator : ∀ f ∈ catalog.fields, f.id ≠ "logical" ∧ f.id ≠ combinatorKey

theorem builtIn_separated : Catalog.builtIn.Separated := by
  refine ⟨?_, by decide⟩
  intro f member g memberToo a ended
  revert f g
  cases a with
  | value => exact absurd rfl ended
  | start => decide +kernel
  | stop => decide +kernel
  | operator => decide +kernel

theorem Catalog.Separated.entryKey_inj {catalog : Catalog} (separated : catalog.Separated) {f g : Field}
    (member : f ∈ catalog.fields) (memberToo : g ∈ catalog.fields) {a b : Aspect}
    (same : entryKey g.id b = entryKey f.id a) : g.id = f.id ∧ b = a := by
  rcases entryKey_eq_iff.mp same with own | ⟨_, ended, id⟩ | ⟨_, ended, id⟩
  · exact own
  · exact absurd id (separated.fields g memberToo f member a ended)
  · exact absurd id (separated.fields f member g memberToo b ended)

theorem Catalog.Separated.owned {catalog : Catalog} (separated : catalog.Separated) (conditions : List Condition)
    {f : Field} (member : f ∈ catalog.fields) (a : Aspect) : Owned (criteria catalog conditions).value f.id a := by
  intro k found e part same
  obtain ⟨g, memberToo, named⟩ := declared_of_mem_criteria found
  rw [← named] at same ⊢
  exact separated.entryKey_inj member memberToo same

theorem Catalog.Separated.entryKey_ne {catalog : Catalog} (separated : catalog.Separated) {f : Field}
    (member : f ∈ catalog.fields) (a : Aspect) : entryKey f.id a ≠ combinatorKey := by
  intro same
  obtain ⟨noField, noKey⟩ := separated.combinator f member
  rcases entryKey_eq_operator_iff.mp (same.trans combinatorKey_eq) with ⟨id, _⟩ | ⟨_, id⟩
  · exact noField id
  · exact noKey id

end Criteria
