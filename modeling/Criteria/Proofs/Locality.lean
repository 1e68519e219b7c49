import Criteria.Proofs.Merge

namespace Criteria

namespace OrderedMap
variable {α β : Type}

def restrict (p : String → Bool) (m : OrderedMap α) : OrderedMap α where
  entries := m.entries.filter fun e => p e.1
  distinct := m.distinct.sublist (List.filter_sublist.map Prod.fst)

theorem filter_putEntry (p : String → Bool) (key : String) (v : α) (es : List (String × α)) :
    (putEntry key v es).filter (fun e => p e.1) =
      if p key then putEntry key v (es.filter fun e => p e.1) else es.filter fun e => p e.1 := by
  induction es with
  | nil => by_cases chosen : p key <;> simp [putEntry, chosen]
  | cons e es ih =>
    by_cases same : e.1 = key
    · by_cases chosen : p key <;> simp [putEntry, same, chosen]
    · by_cases chosen : p key <;> by_cases kept : p e.1 <;> simp_all [putEntry]

theorem restrict_insert (p : String → Bool) (m : OrderedMap α) (key : String) (v : α) :
    (m.insert key v).restrict p = if p key then (m.restrict p).insert key v else m.restrict p := by
  apply ext
  have entries := filter_putEntry p key v m.entries
  split <;> simp_all [restrict, insert]

theorem restrict_insertAll (p : String → Bool) (m : OrderedMap α) (es : List (String × α)) :
    (m.insertAll es).restrict p = (m.restrict p).insertAll (es.filter fun e => p e.1) := by
  induction es generalizing m with
  | nil => rfl
  | cons e es ih =>
    rw [insertAll_cons, ih, restrict_insert]
    by_cases chosen : p e.1
    · rw [if_pos chosen, List.filter_cons, if_pos chosen, insertAll_cons]
    · rw [if_neg chosen, List.filter_cons, if_neg chosen]

theorem restrict_ofList (p : String → Bool) (es : List (String × α)) :
    (ofList es).restrict p = ofList (es.filter fun e => p e.1) := restrict_insertAll p empty es

theorem restrict_map (p : String → Bool) (f : α → β) (m : OrderedMap α) :
    (m.map f).restrict p = (m.restrict p).map f := by
  apply ext
  simp [restrict, map, List.filter_map, Function.comp_def]

theorem restrict_eq_self {p : String → Bool} {m : OrderedMap α} (all : ∀ key ∈ m.keys, p key = true) :
    m.restrict p = m := by
  apply ext
  exact List.filter_eq_self.mpr fun e member => all e.1 (List.mem_map_of_mem member)

theorem get?_restrict {p : String → Bool} (m : OrderedMap α) {key : String} (chosen : p key = true) :
    (m.restrict p).get? key = m.get? key := by
  refine Option.ext fun v => ?_
  have entry : (key, v) ∈ (m.restrict p).entries ↔ (key, v) ∈ m.entries := by simp [restrict, chosen]
  rwa [mem_entries_iff, mem_entries_iff] at entry

end OrderedMap

def ownKeys (f : String) : List String := [Aspect.value, .start, .stop, .operator].map (entryKey f)

theorem mem_ownKeys {f key : String} : key ∈ ownKeys f ↔ ∃ a, entryKey f a = key := by
  rw [ownKeys, List.mem_map]
  refine exists_congr fun a => and_iff_right ?_
  cases a <;> simp

def Condition.concerns (f : String) (c : Condition) : Bool := c.field == some f

theorem entries_filter {catalog : Catalog} (separated : catalog.Separated) {f : Field} (member : f ∈ catalog.fields)
    (c : Condition) :
    (c.entries catalog).filter (fun e => decide (e.1 ∈ ownKeys f.id)) =
      if c.concerns f.id then c.entries catalog else [] := by
  cases completed : c.complete catalog with
  | error reason => simp [Condition.entries, completed]
  | ok k =>
    have named := Condition.field_of_complete completed
    rw [Condition.entries_of_complete completed]
    by_cases own : k.field = f.id
    · have on : c.concerns f.id = true := by simp [Condition.concerns, named, own]
      rw [if_pos on, List.filter_eq_self]
      intro e given
      obtain ⟨part, _, rfl⟩ := List.mem_map.mp given
      exact decide_eq_true (mem_ownKeys.mpr ⟨part.1, by rw [own]⟩)
    · have off : ¬ c.concerns f.id = true := by simp [Condition.concerns, named, own]
      rw [if_neg off, List.filter_eq_nil_iff]
      intro e given claimed
      obtain ⟨part, _, rfl⟩ := List.mem_map.mp given
      obtain ⟨a, same⟩ := mem_ownKeys.mp (of_decide_eq_true claimed)
      obtain ⟨g, memberToo, id⟩ := Condition.declared_of_complete completed
      rw [← id] at same own
      exact own (separated.entryKey_inj member memberToo same.symm).1

theorem emitted_filter {catalog : Catalog} (separated : catalog.Separated) {f : Field} (member : f ∈ catalog.fields)
    (conditions : List Condition) :
    (emitted catalog conditions).filter (fun e => decide (e.1 ∈ ownKeys f.id)) =
      emitted catalog (conditions.filter (Condition.concerns f.id)) := by
  induction conditions with
  | nil => rfl
  | cons c cs ih =>
    rw [emitted] at ih ⊢
    rw [List.flatMap_cons, List.filter_append, entries_filter separated member, ih, List.filter_cons]
    split <;> rfl

theorem collected_own {catalog : Catalog} (separated : catalog.Separated) {f : Field} (member : f ∈ catalog.fields)
    (conditions : List Condition) :
    (collected catalog conditions).restrict (· ∈ ownKeys f.id) =
      collected catalog (conditions.filter (Condition.concerns f.id)) := by
  rw [collected_eq_ofList, collected_eq_ofList, OrderedMap.restrict_ofList, emitted_filter separated member]

theorem combinatorKey_not_own {catalog : Catalog} (separated : catalog.Separated) {f : Field}
    (member : f ∈ catalog.fields) : combinatorKey ∉ ownKeys f.id := by
  intro own
  obtain ⟨a, same⟩ := mem_ownKeys.mp own
  exact separated.entryKey_ne member a same

theorem own_of_mem_collected {catalog : Catalog} {conditions : List Condition} {key : String}
    (present : key ∈ (collected catalog conditions).keys) : ∃ f ∈ catalog.fields, key ∈ ownKeys f.id := by
  obtain ⟨k, found, e, _, rfl⟩ := mem_keys_collected present
  obtain ⟨f, member, named⟩ := declared_of_mem_criteria found
  exact ⟨f, member, mem_ownKeys.mpr ⟨e.1, by rw [named]⟩⟩

namespace Params

theorem restrict_withCombinator {p : String → Bool} (other : p combinatorKey = false) (params : Params)
    (combinator : Combinator) : (withCombinator params combinator).restrict p = params.restrict p := by
  rw [withCombinator]
  split
  · rfl
  · rw [OrderedMap.restrict_insert, if_neg (by simp [other])]

theorem compile_own {catalog : Catalog} (separated : catalog.Separated) {f : Field} (member : f ∈ catalog.fields)
    (conditions : List Condition) (combinator : Combinator) :
    (compile catalog conditions combinator).value.restrict (· ∈ ownKeys f.id) =
      (collected catalog (conditions.filter (Condition.concerns f.id))).map Content.param := by
  have other : decide (combinatorKey ∈ ownKeys f.id) = false := decide_eq_false (combinatorKey_not_own separated member)
  rw [compile_value, restrict_withCombinator other, OrderedMap.restrict_map, collected_own separated member]

theorem compile_aside {catalog : Catalog} (separated : catalog.Separated) (conditions : List Condition)
    (combinator : Combinator) :
    (compile catalog conditions combinator).value.restrict (· ≠ combinatorKey) =
      (collected catalog conditions).map Content.param := by
  have other : decide (combinatorKey ≠ combinatorKey) = false := by simp
  rw [compile_value, restrict_withCombinator other]
  apply OrderedMap.restrict_eq_self
  intro key present
  rw [OrderedMap.keys_map] at present
  obtain ⟨f, member, own⟩ := own_of_mem_collected present
  refine decide_eq_true fun same => ?_
  rw [same] at own
  exact combinatorKey_not_own separated member own

theorem compile_local {catalog : Catalog} (separated : catalog.Separated) {f : Field} (member : f ∈ catalog.fields)
    (conditions : List Condition) (combinator : Combinator) :
    (compile catalog conditions combinator).value.restrict (· ∈ ownKeys f.id) =
      (compile catalog (conditions.filter (Condition.concerns f.id)) combinator).value.restrict (· ≠ combinatorKey) := by
  rw [compile_own separated member, compile_aside separated]

end Params

theorem get?_collected_of_same {catalog : Catalog} (separated : catalog.Separated) {conditions other : List Condition}
    (same : ∀ f ∈ catalog.fields,
      other.filter (Condition.concerns f.id) = conditions.filter (Condition.concerns f.id)) (key : String) :
    (collected catalog other).get? key = (collected catalog conditions).get? key := by
  by_cases declared : ∃ f ∈ catalog.fields, key ∈ ownKeys f.id
  · obtain ⟨f, member, own⟩ := declared
    have under (cs : List Condition) : (collected catalog cs).get? key =
        (collected catalog (cs.filter (Condition.concerns f.id))).get? key := by
      rw [← collected_own separated member, OrderedMap.get?_restrict _ (decide_eq_true own)]
    rw [under, same f member, ← under]
  · have absent (cs : List Condition) : (collected catalog cs).get? key = none :=
      OrderedMap.get?_eq_none_iff.mpr fun present => declared (own_of_mem_collected present)
    rw [absent, absent]

theorem pairwise_mergeSort_key {α : Type} (es : List (String × α)) :
    (es.mergeSort fun a b => decide (a.1 ≤ b.1)).Pairwise fun a b => a.1 ≤ b.1 := by
  refine (List.pairwise_mergeSort ?_ ?_ es).imp of_decide_eq_true
  · intro a b c first second
    exact decide_eq_true (String.le_trans (of_decide_eq_true first) (of_decide_eq_true second))
  · intro a b
    simpa using String.le_total a.1 b.1

-- Sorted by their keys, entries of which no two have one key stand in one order only.
theorem mergeSort_eq_of_perm {α : Type} {es fs : List (String × α)} (distinct : (es.map Prod.fst).Nodup)
    (perm : es.Perm fs) :
    (es.mergeSort fun a b => decide (a.1 ≤ b.1)) = fs.mergeSort fun a b => decide (a.1 ≤ b.1) := by
  refine List.Perm.eq_of_pairwise ?_ (pairwise_mergeSort_key es) (pairwise_mergeSort_key fs) ?_
  · intro a b first second before behind
    have key : a.1 = b.1 := String.le_antisymm before behind
    have held := lookup_of_mem distinct (List.mem_mergeSort.mp first)
    have heldToo := lookup_of_mem distinct (perm.mem_iff.mpr (List.mem_mergeSort.mp second))
    rw [key, heldToo] at held
    exact Prod.ext key (Option.some.inj held).symm
  · exact (List.mergeSort_perm es _).trans (perm.trans (List.mergeSort_perm fs _).symm)

namespace Params

theorem toSortedJson_eq_of_perm {m n : Params} (perm : m.entries.Perm n.entries) :
    m.toSortedJson = n.toSortedJson := by
  have distinct : (m.members.map Prod.fst).Nodup := by simpa [members, Function.comp_def] using m.distinct
  rw [toSortedJson, toSortedJson, mergeSort_eq_of_perm distinct (perm.map _)]
  rfl

theorem toSortedJson_compile_of_same {catalog : Catalog} (separated : catalog.Separated)
    {conditions other : List Condition} (combinator : Combinator)
    (same : ∀ f ∈ catalog.fields,
      other.filter (Condition.concerns f.id) = conditions.filter (Condition.concerns f.id)) :
    (compile catalog other combinator).value.toSortedJson = (compile catalog conditions combinator).value.toSortedJson := by
  apply toSortedJson_eq_of_perm
  apply OrderedMap.perm_of_get?
  intro key
  have held := get?_collected_of_same separated same
  have empty : (collected catalog other).isEmpty = (collected catalog conditions).isEmpty :=
    (OrderedMap.perm_of_get? held).isEmpty_eq
  rw [get?_compile, get?_compile, held, empty]

end Params

theorem params_local (conditions : List Condition) (combinator : Combinator) :
    (∀ f ∈ Catalog.builtInFields,
      (Params.compile .builtIn conditions combinator).value.restrict (· ∈ ownKeys f.id) =
        (Params.compile .builtIn (conditions.filter (Condition.concerns f.id)) combinator).value.restrict
          (· ≠ combinatorKey) ∧
      ∀ (other : List Condition) (combinator' : Combinator),
        other.filter (Condition.concerns f.id) = conditions.filter (Condition.concerns f.id) →
        (Params.compile .builtIn other combinator').value.restrict (· ∈ ownKeys f.id) =
          (Params.compile .builtIn conditions combinator).value.restrict (· ∈ ownKeys f.id)) ∧
    ∀ other : List Condition,
      (∀ f ∈ Catalog.builtInFields,
        other.filter (Condition.concerns f.id) = conditions.filter (Condition.concerns f.id)) →
      (Params.compile .builtIn other combinator).value.toSortedJson =
        (Params.compile .builtIn conditions combinator).value.toSortedJson := by
  refine ⟨fun f member => ⟨?_, fun other combinator' same => ?_⟩, fun other same => ?_⟩
  · exact Params.compile_local builtIn_separated member conditions combinator
  · rw [Params.compile_own builtIn_separated member, Params.compile_own builtIn_separated member, same]
  · exact Params.toSortedJson_compile_of_same builtIn_separated combinator same

-- Two fields taking turns, and then one after the other.

def takingTurns : List Condition := [
  ⟨"c1", some "categories", some .isIn, .selection ["1"]⟩,
  ⟨"c2", some "rpt", some .equals, .flag false⟩,
  ⟨"c3", some "categories", some .notIn, .selection ["2", "3"]⟩,
  ⟨"c4", some "rpt", none, .absent⟩]

def fieldByField : List Condition := [
  ⟨"c2", some "rpt", some .equals, .flag false⟩,
  ⟨"c4", some "rpt", none, .absent⟩,
  ⟨"c1", some "categories", some .isIn, .selection ["1"]⟩,
  ⟨"c3", some "categories", some .notIn, .selection ["2", "3"]⟩]

theorem params_local_fieldByField :
    (⟨"categories", "Categories", .multiSelect, [.isIn, .notIn]⟩ : Field) ∈ Catalog.builtInFields ∧
    (∀ f ∈ Catalog.builtInFields,
      fieldByField.filter (Condition.concerns f.id) = takingTurns.filter (Condition.concerns f.id)) ∧
    (Params.compile .builtIn fieldByField .or).value.restrict (· ∈ ownKeys "categories") =
      (Params.compile .builtIn takingTurns .and).value.restrict (· ∈ ownKeys "categories") ∧
    (Params.compile .builtIn fieldByField .or).value ≠ (Params.compile .builtIn takingTurns .or).value ∧
    (Params.compile .builtIn fieldByField .or).value.toSortedJson =
      (Params.compile .builtIn takingTurns .or).value.toSortedJson := by
  have known : (⟨"categories", "Categories", .multiSelect, [.isIn, .notIn]⟩ : Field) ∈ Catalog.builtInFields := by
    decide
  have same : ∀ f ∈ Catalog.builtInFields,
      fieldByField.filter (Condition.concerns f.id) = takingTurns.filter (Condition.concerns f.id) := by decide
  obtain ⟨own, _⟩ := params_local takingTurns .and
  obtain ⟨_, sorted⟩ := params_local takingTurns .or
  refine ⟨known, same, (own _ known).2 fieldByField .or (same _ known), ?_, sorted fieldByField same⟩
  intro equal
  have entries := congrArg OrderedMap.entries equal
  revert entries
  decide +kernel

end Criteria
