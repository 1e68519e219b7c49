import Criteria.Proofs.Keys

namespace Criteria

namespace Token

theorem foldlM_putInto_items (m : Params) (key : String) (seen ids : List String) :
    (ids.map fun id => (⟨key, true, id⟩ : Token)).foldlM putInto (m.insert key (.list seen)) =
      some (m.insert key (.list (seen ++ ids))) := by
  induction ids generalizing seen with
  | nil => simp
  | cons id ids ih =>
    have next : putInto (m.insert key (.list seen)) ⟨key, true, id⟩ = some (m.insert key (.list (seen ++ [id]))) := by
      simp [putInto]
    rw [List.map_cons, List.foldlM_cons, next, Option.bind_eq_bind, Option.bind_some, ih, List.append_assoc,
      List.singleton_append]

theorem foldlM_putInto_ofEntry {m : Params} {key : String} {p : Param} (fresh : key ∉ m.keys) (filled : p ≠ .list []) :
    (ofEntry (key, p)).foldlM putInto m = some (m.insert key p.plain) := by
  cases p with
  | flag b => rfl
  | text s => rfl
  | list ids =>
    cases ids with
    | nil => exact absurd rfl filled
    | cons id ids =>
      have first : putInto m ⟨key, true, id⟩ = some (m.insert key (.list [id])) := by
        simp [putInto, OrderedMap.get?_eq_none_iff.mpr fresh]
      rw [ofEntry, List.map_cons, List.foldlM_cons, first, Option.bind_eq_bind, Option.bind_some,
        foldlM_putInto_items]
      rfl

theorem foldlM_putInto_ofEntries {m : Params} {es : List (String × Param)}
    (distinct : (m.keys ++ es.map Prod.fst).Nodup) (filled : ∀ e ∈ es, e.2 ≠ .list []) :
    (ofEntries es).foldlM putInto m = some (m.insertAll (es.map fun e => (e.1, e.2.plain))) := by
  induction es generalizing m with
  | nil => rfl
  | cons e es ih =>
    obtain ⟨key, p⟩ := e
    have fresh : key ∉ m.keys := fun present => (List.nodup_append.mp distinct).2.2 key present key (by simp) rfl
    have keys : (m.insert key p.plain).keys = m.keys ++ [key] := by simp [OrderedMap.keys_insert, fresh]
    have rest : ((m.insert key p.plain).keys ++ es.map Prod.fst).Nodup := by
      rw [keys, List.append_assoc, List.singleton_append]
      exact distinct
    have first := foldlM_putInto_ofEntry fresh (filled (key, p) (by simp))
    have others := ih rest fun e member => filled e (List.mem_cons_of_mem _ member)
    simp only [ofEntries, List.flatMap_cons, List.foldlM_append, first, Option.bind_eq_bind, Option.bind_some]
    exact others

end Token

theorem Content.param_filled {c : Content} (filled : c ≠ .list []) : c.param ≠ .list [] := by
  cases c <;> simp_all [param]

namespace Query

theorem foldlM_putInto_map {params : Params} (filled : ∀ e ∈ params.entries, e.2 ≠ .list []) :
    (Token.ofEntries params.entries).foldlM Token.putInto .empty = some (params.map Param.plain) := by
  have distinct : ((OrderedMap.empty : Params).keys ++ params.entries.map Prod.fst).Nodup := params.distinct
  rw [Token.foldlM_putInto_ofEntries distinct filled]
  exact congrArg some (OrderedMap.ofList_entries (params.map Param.plain))

theorem collected_param_filled (catalog : Catalog) (conditions : List Condition) :
    ∀ e ∈ ((collected catalog conditions).map Content.param).entries, e.2 ≠ .list [] := by
  intro e member
  rw [OrderedMap.entries_map] at member
  obtain ⟨given, held, rfl⟩ := List.mem_map.mp member
  exact Content.param_filled (collected_filled catalog conditions given held)

theorem foldlM_putInto_sent (catalog : Catalog) (conditions : List Condition) (combinator : Combinator) :
    (sent (collected catalog conditions) combinator).foldlM Token.putInto .empty =
      some ((Params.compile catalog conditions combinator).value.map Param.plain) := by
  have folded := foldlM_putInto_map (collected_param_filled catalog conditions)
  rw [Params.compile_value, Params.withCombinator, sent, OrderedMap.isEmpty_map]
  cases empty : (collected catalog conditions).isEmpty with
  | true =>
    have nothing := OrderedMap.isEmpty_iff.mp empty
    simp [OrderedMap.ext_iff, OrderedMap.entries_map, nothing]
  | false =>
    simp only [Bool.false_eq_true, if_false, List.foldlM_append, folded, Option.bind_eq_bind, Option.bind_some,
      OrderedMap.map_insert]
    rfl

theorem parse?_compile (catalog : Catalog) (conditions : List Condition) (combinator : Combinator) :
    parse? (compile catalog conditions combinator).value =
      some ((Params.compile catalog conditions combinator).value.map Param.plain) := by
  rw [parse?, tokens?_compile, Option.bind_eq_bind, Option.bind_some, foldlM_putInto_sent]

end Query
end Criteria
