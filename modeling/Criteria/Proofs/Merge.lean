import Criteria.Proofs.UnderKey
import Mathlib.Data.List.Induction

namespace Criteria

def GivenLast {α : Type} (es : List (String × α)) (key : String) (v : α) : Prop :=
  ∃ before after, es = before ++ (key, v) :: after ∧ key ∉ after.map Prod.fst

-- How a map stands to the entries that it is the merge of.
structure MergeOf {α : Type} (es : List (String × α)) (m : OrderedMap α) : Prop where
  -- Its keys are those that were given,
  keys : ∀ key, key ∈ m.keys ↔ key ∈ es.map Prod.fst
  -- in the order of their first places, which is strict, so that no key comes twice,
  order : m.keys.Pairwise fun a b => (es.map Prod.fst).idxOf a < (es.map Prod.fst).idxOf b
  -- and each holds what was given for it last.
  held : ∀ key v, m.get? key = some v ↔ GivenLast es key v

theorem lookup_reverse_iff {α : Type} {es : List (String × α)} {key : String} {v : α} :
    es.reverse.lookup key = some v ↔ GivenLast es key v := by
  rw [List.lookup_eq_some_iff]
  constructor
  · intro found
    obtain ⟨passed, rest, whole, others⟩ := found
    refine ⟨rest.reverse, passed.reverse, ?_, ?_⟩
    · rw [← List.reverse_reverse es, whole]
      simp
    · intro present
      obtain ⟨e, member, rfl⟩ := List.mem_map.mp present
      simpa using others e (List.mem_reverse.mp member)
  · intro given
    obtain ⟨before, after, whole, absent⟩ := given
    refine ⟨after.reverse, before.reverse, ?_, ?_⟩
    · rw [whole]
      simp
    · intro e member
      have other : key ≠ e.1 := fun equal => absent (equal ▸ List.mem_map_of_mem (List.mem_reverse.mp member))
      simpa using other

namespace OrderedMap
variable {α : Type}

theorem ofList_concat (es : List (String × α)) (e : String × α) :
    ofList (es ++ [e]) = (ofList es).insert e.1 e.2 := insertAll_append empty es [e]

theorem mem_keys_ofList {es : List (String × α)} {key : String} : key ∈ (ofList es).keys ↔ key ∈ es.map Prod.fst := by
  rw [← contains_iff, contains, get?_ofList, List.lookup_isSome_iff]
  simp only [List.mem_reverse, List.mem_map, beq_iff_eq]
  exact exists_congr fun e => and_congr_right fun _ => eq_comm

theorem isEmpty_ofList {es : List (String × α)} : (ofList es).isEmpty = true ↔ es = [] := by
  have keys : (ofList es).entries = [] ↔ (ofList es).keys = [] := List.map_eq_nil_iff.symm
  rw [isEmpty_iff, keys, List.eq_nil_iff_forall_not_mem, List.eq_nil_iff_forall_not_mem]
  simp [mem_keys_ofList]

-- A key that came before keeps its first place, and a new one has the place behind all others.
theorem pairwise_keys_ofList (es : List (String × α)) :
    (ofList es).keys.Pairwise fun a b => (es.map Prod.fst).idxOf a < (es.map Prod.fst).idxOf b := by
  induction es using List.reverseRecOn with
  | nil => exact .nil
  | append_singleton before e ih =>
    have kept : (ofList before).keys.Pairwise fun a b =>
        ((before ++ [e]).map Prod.fst).idxOf a < ((before ++ [e]).map Prod.fst).idxOf b := by
      refine ih.imp_of_mem fun {a b} first second less => ?_
      rw [mem_keys_ofList] at first second
      rw [List.map_append, List.idxOf_append, List.idxOf_append, if_pos first, if_pos second]
      exact less
    rw [ofList_concat, keys_insert]
    split
    · exact kept
    · rename_i fresh
      refine List.pairwise_append.mpr ⟨kept, List.pairwise_singleton _ _, ?_⟩
      intro a first b last
      cases List.mem_singleton.mp last
      rw [mem_keys_ofList] at first fresh
      rw [List.map_append, List.idxOf_append, List.idxOf_append, if_pos first, if_neg fresh]
      have place := List.idxOf_lt_length_iff.mpr first
      omega

end OrderedMap

theorem mergeOf_ofList {α : Type} (es : List (String × α)) : MergeOf es (.ofList es) where
  keys _ := OrderedMap.mem_keys_ofList
  order := OrderedMap.pairwise_keys_ofList es
  held key v := by rw [OrderedMap.get?_ofList, lookup_reverse_iff]

theorem MergeOf.unique {α : Type} {es : List (String × α)} {m n : OrderedMap α} (merged : MergeOf es m)
    (mergedToo : MergeOf es n) : m = n := by
  have members : m.keys.Perm n.keys := by
    refine (List.perm_ext_iff_of_nodup m.distinct n.distinct).mpr fun key => ?_
    exact (merged.keys key).trans (mergedToo.keys key).symm
  have keys : m.keys = n.keys := by
    refine members.eq_of_pairwise ?_ merged.order mergedToo.order
    intro a b _ _ before behind
    omega
  refine OrderedMap.ext_get? keys fun key => Option.ext fun v => ?_
  exact (merged.held key v).trans (mergedToo.held key v).symm

theorem mergeOf_iff {α : Type} {es : List (String × α)} {m : OrderedMap α} : MergeOf es m ↔ m = .ofList es := by
  constructor
  · exact fun merged => merged.unique (mergeOf_ofList es)
  · rintro rfl
    exact mergeOf_ofList es

def Condition.entries (catalog : Catalog) (c : Condition) : List (String × Content) :=
  match c.complete catalog with
  | .ok k => k.entries
  | .error _ => []

def emitted (catalog : Catalog) (conditions : List Condition) : List (String × Content) :=
  conditions.flatMap (Condition.entries catalog)

theorem Condition.entries_of_complete {catalog : Catalog} {c : Condition} {k : Criterion}
    (completed : c.complete catalog = .ok k) : c.entries catalog = k.entries := by
  rw [entries, completed]

theorem emitted_eq (catalog : Catalog) (conditions : List Condition) :
    emitted catalog conditions = (criteria catalog conditions).value.flatMap Criterion.entries := by
  rw [emitted, criteria_value]
  induction conditions with
  | nil => rfl
  | cons c cs ih =>
    rw [List.flatMap_cons, ih]
    cases completed : c.complete catalog <;> simp [Condition.entries, completed, Except.toOption]

theorem collected_eq_ofList (catalog : Catalog) (conditions : List Condition) :
    collected catalog conditions = .ofList (emitted catalog conditions) := by
  rw [collected, Contents.merge, emitted_eq]

theorem isEmpty_collected {catalog : Catalog} {conditions : List Condition} :
    (collected catalog conditions).isEmpty = true ↔ emitted catalog conditions = [] := by
  rw [collected_eq_ofList, OrderedMap.isEmpty_ofList]

theorem mem_keys_collected_iff {catalog : Catalog} {conditions : List Condition} {key : String} :
    key ∈ (collected catalog conditions).keys ↔ key ∈ (emitted catalog conditions).map Prod.fst := by
  rw [collected_eq_ofList, OrderedMap.mem_keys_ofList]

theorem Params.keys_compile (catalog : Catalog) (conditions : List Condition) (combinator : Combinator) :
    (compile catalog conditions combinator).value.keys =
      if emitted catalog conditions = [] ∨ combinatorKey ∈ (emitted catalog conditions).map Prod.fst then
        (collected catalog conditions).keys
      else (collected catalog conditions).keys ++ [combinatorKey] := by
  rw [compile_value, withCombinator, OrderedMap.isEmpty_map]
  simp only [← isEmpty_collected, ← mem_keys_collected_iff]
  cases empty : (collected catalog conditions).isEmpty with
  | true => simp
  | false => simp [OrderedMap.keys_insert]

theorem compile_merged (catalog : Catalog) (conditions : List Condition) (combinator : Combinator) :
    (∀ m, MergeOf (emitted catalog conditions) m ↔ m = collected catalog conditions) ∧
    (Params.compile catalog conditions combinator).value.keys =
      (if emitted catalog conditions = [] ∨ combinatorKey ∈ (emitted catalog conditions).map Prod.fst then
        (collected catalog conditions).keys
      else (collected catalog conditions).keys ++ [combinatorKey]) ∧
    ∀ key, (Params.compile catalog conditions combinator).value.get? key =
      if emitted catalog conditions ≠ [] ∧ key = combinatorKey then some (.text combinator.text)
      else ((collected catalog conditions).get? key).map Content.param := by
  refine ⟨fun m => ?_, Params.keys_compile catalog conditions combinator, fun key => ?_⟩
  · rw [collected_eq_ofList, mergeOf_iff]
  · have filled : (collected catalog conditions).isEmpty = false ↔ emitted catalog conditions ≠ [] := by
      rw [ne_eq, ← isEmpty_collected, Bool.not_eq_true]
    simp only [Params.get?_compile, filled, and_comm]

end Criteria
