import Criteria.OrderedMap
import Mathlib.Data.List.Basic
import Mathlib.Data.List.Nodup

namespace Criteria

theorem putEntry_new {α : Type} {key : String} (v : α) {es : List (String × α)} (fresh : key ∉ es.map Prod.fst) :
    putEntry key v es = es ++ [(key, v)] := by
  induction es with
  | nil => rfl
  | cons e es ih =>
    rw [List.map_cons, List.mem_cons, not_or] at fresh
    have other : e.1 ≠ key := fun equal => fresh.1 equal.symm
    simp [putEntry, other, ih fresh.2]

theorem putEntry_putEntry {α : Type} (key : String) (v w : α) (es : List (String × α)) :
    putEntry key w (putEntry key v es) = putEntry key w es := by
  induction es with
  | nil => simp [putEntry]
  | cons e es ih =>
    by_cases equal : e.1 = key
    · simp [putEntry, equal]
    · simp [putEntry, equal, ih]

theorem map_putEntry {α β : Type} (f : α → β) (key : String) (v : α) (es : List (String × α)) :
    (putEntry key v es).map (fun e => (e.1, f e.2)) = putEntry key (f v) (es.map fun e => (e.1, f e.2)) := by
  induction es with
  | nil => rfl
  | cons e es ih =>
    by_cases equal : e.1 = key
    · simp [putEntry, equal]
    · simp [putEntry, equal, ih]

theorem lookup_of_mem {κ α : Type} [BEq κ] [LawfulBEq κ] {es : List (κ × α)} (distinct : (es.map Prod.fst).Nodup)
    {e : κ × α} (present : e ∈ es) : es.lookup e.1 = some e.2 := by
  obtain ⟨key, v⟩ := e
  obtain ⟨before, after, whole⟩ := List.append_of_mem present
  rw [whole, List.map_append, List.map_cons] at distinct
  have absent : before.lookup key = none := by
    rw [List.lookup_eq_none_iff]
    intro d member
    have apart := (List.nodup_append.mp distinct).2.2 d.1 (List.mem_map_of_mem member) key (by simp)
    simpa using fun equal => apart equal.symm
  rw [whole, List.lookup_append, absent]
  simp

namespace OrderedMap
variable {α β : Type}

@[simp] theorem get?_empty (key : String) : (empty : OrderedMap α).get? key = none := rfl

@[simp] theorem get?_insert_self (m : OrderedMap α) (key : String) (v : α) : (m.insert key v).get? key = some v := by
  simp [get?_insert]

theorem entries_insert_new {m : OrderedMap α} {key : String} (v : α) (fresh : key ∉ m.keys) :
    (m.insert key v).entries = m.entries ++ [(key, v)] := putEntry_new v fresh

@[simp] theorem insert_insert (m : OrderedMap α) (key : String) (v w : α) :
    (m.insert key v).insert key w = m.insert key w := ext (putEntry_putEntry key v w m.entries)

theorem map_insert (f : α → β) (m : OrderedMap α) (key : String) (v : α) :
    (m.insert key v).map f = (m.map f).insert key (f v) := ext (map_putEntry f key v m.entries)

@[simp] theorem isEmpty_map (f : α → β) (m : OrderedMap α) : (m.map f).isEmpty = m.isEmpty := by
  simp [isEmpty, map]

theorem entries_map (f : α → β) (m : OrderedMap α) : (m.map f).entries = m.entries.map fun e => (e.1, f e.2) := rfl

theorem lookup_map (f : α → β) (es : List (String × α)) (key : String) :
    (es.map fun e => (e.1, f e.2)).lookup key = (es.lookup key).map f := by
  induction es with
  | nil => rfl
  | cons e es ih =>
    rw [List.map_cons, lookup_cons_eq, lookup_cons_eq, ih]
    split <;> rfl

theorem get?_map (f : α → β) (m : OrderedMap α) (key : String) : (m.map f).get? key = (m.get? key).map f :=
  lookup_map f m.entries key

theorem contains_iff {m : OrderedMap α} {key : String} : m.contains key = true ↔ key ∈ m.keys := by
  simp only [contains, get?, List.lookup_isSome_iff, keys, List.mem_map, beq_iff_eq]
  exact exists_congr fun e => and_congr_right fun _ => eq_comm

theorem get?_eq_none_iff {m : OrderedMap α} {key : String} : m.get? key = none ↔ key ∉ m.keys := by
  rw [← contains_iff, contains]
  simp

theorem isEmpty_iff {m : OrderedMap α} : m.isEmpty = true ↔ m.entries = [] := by simp [isEmpty]

theorem get?_of_isEmpty {m : OrderedMap α} (empty : m.isEmpty = true) (key : String) : m.get? key = none := by
  rw [get?, isEmpty_iff.mp empty]
  rfl

theorem not_isEmpty_of_get? {m : OrderedMap α} {key : String} {v : α} (held : m.get? key = some v) :
    m.isEmpty = false := by
  rw [Bool.eq_false_iff]
  intro empty
  rw [get?_of_isEmpty empty] at held
  cases held

theorem get?_of_mem {m : OrderedMap α} {key : String} {v : α} (present : (key, v) ∈ m.entries) :
    m.get? key = some v := lookup_of_mem m.distinct present

theorem mem_entries_iff {m : OrderedMap α} {e : String × α} : e ∈ m.entries ↔ m.get? e.1 = some e.2 := by
  constructor
  · exact get?_of_mem
  · intro found
    obtain ⟨before, after, whole, _⟩ := List.lookup_eq_some_iff.mp found
    rw [whole]
    simp

theorem perm_of_get? {m n : OrderedMap α} (held : ∀ key, m.get? key = n.get? key) : m.entries.Perm n.entries := by
  refine (List.perm_ext_iff_of_nodup m.distinct.of_map n.distinct.of_map).mpr fun e => ?_
  rw [mem_entries_iff, mem_entries_iff, held]

theorem entries_eq_filterMap (m : OrderedMap α) :
    m.entries = m.keys.filterMap fun key => (m.get? key).map fun v => (key, v) := by
  have found : ∀ e ∈ m.entries, ((m.get? e.1).map fun v => (e.1, v)) = some e := by
    intro e member
    rw [get?_of_mem member]
    rfl
  rw [keys, List.filterMap_map]
  calc m.entries = m.entries.filterMap some := List.filterMap_some.symm
    _ = _ := List.filterMap_congr fun e member => (found e member).symm

theorem ext_get? {m n : OrderedMap α} (keys : m.keys = n.keys) (held : ∀ key, m.get? key = n.get? key) : m = n := by
  apply ext
  rw [entries_eq_filterMap m, entries_eq_filterMap n, keys, funext held]

theorem insertAll_cons (m : OrderedMap α) (e : String × α) (es : List (String × α)) :
    m.insertAll (e :: es) = (m.insert e.1 e.2).insertAll es := rfl

theorem get?_insertAll (m : OrderedMap α) (es : List (String × α)) (key : String) :
    (m.insertAll es).get? key = (es.reverse.lookup key).or (m.get? key) := by
  induction es generalizing m with
  | nil => rfl
  | cons e es ih =>
    rw [insertAll_cons, ih, get?_insert, List.reverse_cons, List.lookup_append, Option.or_assoc, lookup_cons_eq]
    by_cases equal : key = e.1 <;> simp [equal]

theorem get?_ofList (es : List (String × α)) (key : String) : (ofList es).get? key = es.reverse.lookup key := by
  rw [ofList, get?_insertAll, get?_empty, Option.or_none]

theorem mem_of_mem_ofList {es : List (String × α)} {e : String × α} (present : e ∈ (ofList es).entries) : e ∈ es := by
  have found := get?_of_mem present
  rw [get?_ofList] at found
  obtain ⟨before, after, whole, _⟩ := List.lookup_eq_some_iff.mp found
  have member : e ∈ es.reverse := by
    rw [whole]
    simp
  exact List.mem_reverse.mp member

theorem entries_insertAll_new {m : OrderedMap α} {es : List (String × α)}
    (distinct : (m.keys ++ es.map Prod.fst).Nodup) : (m.insertAll es).entries = m.entries ++ es := by
  induction es generalizing m with
  | nil => simp [insertAll]
  | cons e es ih =>
    have fresh : e.1 ∉ m.keys := fun present => (List.nodup_append.mp distinct).2.2 e.1 present e.1 (by simp) rfl
    have keys : (m.insert e.1 e.2).keys = m.keys ++ [e.1] := by simp [keys_insert, fresh]
    rw [insertAll_cons, ih, entries_insert_new e.2 fresh, List.append_assoc, List.singleton_append]
    rw [keys, List.append_assoc, List.singleton_append]
    exact distinct

theorem ofList_entries (m : OrderedMap α) : ofList m.entries = m :=
  ext (entries_insertAll_new m.distinct)

end OrderedMap
end Criteria
