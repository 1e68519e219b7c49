import Criteria.Proofs.Keys

namespace Criteria

theorem Token.key_of_mem_ofEntry {key : String} {p : Param} {t : Token} (member : t ∈ ofEntry (key, p)) :
    t.key = key := by
  cases p with
  | list ids =>
    obtain ⟨id, _, rfl⟩ := List.mem_map.mp member
    rfl
  | flag b => rw [List.mem_singleton.mp member]
  | text s => rw [List.mem_singleton.mp member]

theorem Token.ofEntry_ne_nil (key : String) {p : Param} (filled : p ≠ .list []) : ofEntry (key, p) ≠ [] := by
  cases p <;> simp_all [ofEntry]

theorem Token.filter_ofEntry (key other : String) (p : Param) :
    (ofEntry (key, p)).filter (·.key == other) = if key = other then ofEntry (key, p) else [] := by
  by_cases same : key = other
  · rw [if_pos same, List.filter_eq_self]
    intro t member
    simpa [key_of_mem_ofEntry member] using same
  · rw [if_neg same, List.filter_eq_nil_iff]
    intro t member
    simpa [key_of_mem_ofEntry member] using same

theorem Token.filter_ofEntries {es : List (String × Param)} (distinct : (es.map Prod.fst).Nodup) (key : String) :
    (ofEntries es).filter (·.key == key) = (es.lookup key).toList.flatMap fun p => ofEntry (key, p) := by
  induction es with
  | nil => rfl
  | cons e es ih =>
    obtain ⟨k, p⟩ := e
    rw [List.map_cons, List.nodup_cons] at distinct
    have rest := ih distinct.2
    rw [ofEntries] at rest ⊢
    rw [List.flatMap_cons, List.filter_append, filter_ofEntry, rest, OrderedMap.lookup_cons_eq]
    by_cases same : k = key
    · subst same
      have absent : es.lookup k = none := by
        rw [List.lookup_eq_none_iff]
        intro e member
        have present : e.1 ∈ es.map Prod.fst := List.mem_map_of_mem member
        have apart : k ≠ e.1 := fun equal => distinct.1 (equal ▸ present)
        simpa using apart
      simp [absent]
    · have other : key ≠ k := fun equal => same equal.symm
      simp [same, other]

namespace Query

def tokensUnder? (query key : String) : Option (List Token) :=
  (tokens? query).map fun ts => ts.filter (·.key == key)

theorem tokensUnder?_compile (catalog : Catalog) (conditions : List Condition) (combinator : Combinator)
    (key : String) :
    tokensUnder? (compile catalog conditions combinator).value key =
      some ((((collected catalog conditions).get? key).toList.flatMap fun c => Token.ofEntry (key, c.param)) ++
        if key = combinatorKey ∧ (collected catalog conditions).isEmpty = false then
          [⟨combinatorKey, false, combinator.text⟩] else []) := by
  have under := Token.filter_ofEntries ((collected catalog conditions).map Content.param).distinct key
  have held : (((collected catalog conditions).map Content.param).entries.lookup key) =
      ((collected catalog conditions).get? key).map Content.param := OrderedMap.get?_map _ _ key
  rw [tokensUnder?, tokens?_compile, Option.map_some, sent]
  cases empty : (collected catalog conditions).isEmpty with
  | true =>
    have nothing := OrderedMap.get?_of_isEmpty empty key
    simp [nothing]
  | false =>
    rw [if_neg (by simp), List.filter_append, under, held, Option.toList_map, List.flatMap_map]
    by_cases same : key = combinatorKey
    · simp [same]
    · have other : combinatorKey ≠ key := fun equal => same equal.symm
      simp [same, other]

end Query

theorem Params.get?_compile (catalog : Catalog) (conditions : List Condition) (combinator : Combinator)
    (key : String) :
    (compile catalog conditions combinator).value.get? key =
      if key = combinatorKey ∧ (collected catalog conditions).isEmpty = false then some (.text combinator.text)
      else ((collected catalog conditions).get? key).map Content.param := by
  rw [compile_value, withCombinator, OrderedMap.isEmpty_map]
  cases empty : (collected catalog conditions).isEmpty with
  | true => simp [OrderedMap.get?_map]
  | false => simp [OrderedMap.get?_insert, OrderedMap.get?_map]

theorem combinator_of_param {catalog : Catalog} {conditions : List Condition} {combinator : Combinator} {p : Param}
    (held : (Params.compile catalog conditions combinator).value.get? combinatorKey = some p) :
    p = .text combinator.text := by
  rw [Params.get?_compile] at held
  split at held
  · exact (Option.some.inj held).symm
  · rename_i empty
    have nothing : (collected catalog conditions).isEmpty = true := by simpa using empty
    rw [OrderedMap.get?_of_isEmpty nothing] at held
    cases held

end Criteria
