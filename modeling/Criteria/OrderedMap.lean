namespace Criteria

-- A key that is there keeps its place and takes the new value; a new key goes to the end.
def putEntry {α : Type} (key : String) (v : α) : List (String × α) → List (String × α)
  | [] => [(key, v)]
  | (k, w) :: rest => if k = key then (k, v) :: rest else (k, w) :: putEntry key v rest

theorem keys_putEntry {α : Type} (key : String) (v : α) (es : List (String × α)) :
    (putEntry key v es).map Prod.fst =
      if key ∈ es.map Prod.fst then es.map Prod.fst else es.map Prod.fst ++ [key] := by
  induction es with
  | nil => simp [putEntry]
  | cons e es ih =>
    obtain ⟨k, w⟩ := e
    unfold putEntry
    split
    · simp_all
    · rename_i h
      have : key ≠ k := fun e => h e.symm
      simp only [List.map_cons, ih, List.mem_cons, this, false_or]
      split <;> simp

structure OrderedMap (α : Type) where
  entries : List (String × α)
  distinct : (entries.map Prod.fst).Nodup

namespace OrderedMap
variable {α : Type}

def empty : OrderedMap α := ⟨[], by simp⟩

def keys (m : OrderedMap α) : List String := m.entries.map Prod.fst

def size (m : OrderedMap α) : Nat := m.entries.length

def isEmpty (m : OrderedMap α) : Bool := m.entries.isEmpty

def get? (m : OrderedMap α) (key : String) : Option α := m.entries.lookup key

def contains (m : OrderedMap α) (key : String) : Bool := (m.get? key).isSome

def insert (m : OrderedMap α) (key : String) (v : α) : OrderedMap α where
  entries := putEntry key v m.entries
  distinct := by
    rw [keys_putEntry]
    split
    · exact m.distinct
    · rename_i h
      refine List.nodup_append.mpr ⟨m.distinct, by simp, ?_⟩
      intro a ha b hb
      cases List.mem_singleton.mp hb
      exact fun e => h (e ▸ ha)

def insertAll (m : OrderedMap α) (es : List (String × α)) : OrderedMap α :=
  es.foldl (fun m e => m.insert e.1 e.2) m

def ofList (es : List (String × α)) : OrderedMap α := empty.insertAll es

def map {β : Type} (f : α → β) (m : OrderedMap α) : OrderedMap β where
  entries := m.entries.map fun e => (e.1, f e.2)
  distinct := by simpa [Function.comp_def] using m.distinct

@[ext] theorem ext {m n : OrderedMap α} (h : m.entries = n.entries) : m = n := by
  cases m
  cases n
  cases h
  rfl

@[simp] theorem entries_empty : (empty : OrderedMap α).entries = [] := rfl

theorem keys_insert (m : OrderedMap α) (key : String) (v : α) :
    (m.insert key v).keys = if key ∈ m.keys then m.keys else m.keys ++ [key] :=
  keys_putEntry key v m.entries

theorem lookup_cons_eq (k : String) (w : α) (es : List (String × α)) (key : String) :
    ((k, w) :: es).lookup key = if key = k then some w else es.lookup key := by
  by_cases h : key = k
  · simp [h]
  · have hb : (key == k) = false := by simpa using h
    simp [List.lookup_cons, h, hb]

theorem lookup_putEntry (key other : String) (v : α) (es : List (String × α)) :
    (putEntry key v es).lookup other = if other = key then some v else es.lookup other := by
  induction es with
  | nil => rw [putEntry, lookup_cons_eq]
  | cons e es ih =>
    obtain ⟨k, w⟩ := e
    unfold putEntry
    split
    · rename_i h
      simp only [lookup_cons_eq, h]
      split <;> rfl
    · rename_i h
      rw [lookup_cons_eq, lookup_cons_eq, ih]
      split <;> split <;> simp_all

theorem get?_insert (m : OrderedMap α) (key other : String) (v : α) :
    (m.insert key v).get? other = if other = key then some v else m.get? other :=
  lookup_putEntry key other v m.entries

theorem insertAll_append (m : OrderedMap α) (es fs : List (String × α)) :
    m.insertAll (es ++ fs) = (m.insertAll es).insertAll fs := List.foldl_append

@[simp] theorem keys_map {β : Type} (f : α → β) (m : OrderedMap α) : (m.map f).keys = m.keys := by
  simp [keys, map, Function.comp_def]

theorem isEmpty_insert (m : OrderedMap α) (key : String) (v : α) : (m.insert key v).isEmpty = false := by
  have h : (m.insert key v).entries ≠ [] := by
    show putEntry key v m.entries ≠ []
    cases m.entries with
    | nil => simp [putEntry]
    | cons e es =>
      unfold putEntry
      split <;> simp
  simpa [isEmpty] using h

end OrderedMap
end Criteria
