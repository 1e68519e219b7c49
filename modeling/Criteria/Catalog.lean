import Criteria.Error
import Criteria.Event
import Criteria.Field
import Criteria.OrderedMap

namespace Criteria

namespace Field

def rows (fields : List Field) : OrderedMap Nat := .ofList (fields.zipIdx.map fun row => (row.1.id, row.2))

theorem rows_append (fields : List Field) (f : Field) :
    rows (fields ++ [f]) = (rows fields).insert f.id fields.length := by
  unfold rows
  rw [List.zipIdx_append, List.map_append, OrderedMap.ofList, OrderedMap.insertAll_append]
  simp [OrderedMap.insertAll, OrderedMap.ofList]

theorem get?_insertAll_zipIdx {fields : List Field} (distinct : (fields.map Field.id).Nodup) (m : OrderedMap Nat)
    (start : Nat) (id : String) :
    (m.insertAll ((fields.zipIdx start).map fun row => (row.1.id, row.2))).get? id =
      ((fields.findIdx? (·.id == id)).map (start + ·)).or (m.get? id) := by
  induction fields generalizing m start with
  | nil => simp [OrderedMap.insertAll]
  | cons f fs ih =>
    rw [List.map_cons, List.nodup_cons] at distinct
    rw [List.zipIdx_cons, List.map_cons]
    change ((m.insert f.id start).insertAll _).get? id = _
    rw [ih distinct.2, OrderedMap.get?_insert, List.findIdx?_cons]
    by_cases named : f.id = id
    · subst named
      have absent : fs.findIdx? (·.id == f.id) = none := by
        rw [List.findIdx?_eq_none_iff]
        intro g member
        have other : g.id ≠ f.id := fun same => distinct.1 (same ▸ List.mem_map_of_mem member)
        simpa using other
      simp [absent]
    · have other : id ≠ f.id := fun same => named same.symm
      simp [named, other, Option.map_map, Function.comp_def, Nat.add_assoc, Nat.add_comm 1]

theorem get?_rows {fields : List Field} (distinct : (fields.map Field.id).Nodup) {id : String} {i : Nat} :
    (rows fields).get? id = some i ↔ ∃ f, fields[i]? = some f ∧ f.id = id := by
  have found : (rows fields).get? id = fields.findIdx? (·.id == id) := by
    rw [rows, OrderedMap.ofList, get?_insertAll_zipIdx distinct]
    simp [OrderedMap.empty, OrderedMap.get?]
  rw [found, List.findIdx?_eq_some_iff_getElem]
  constructor
  · intro parts
    obtain ⟨within, named, _⟩ := parts
    exact ⟨fields[i], List.getElem?_eq_getElem within, by simpa using named⟩
  · intro parts
    obtain ⟨f, row, rfl⟩ := parts
    obtain ⟨within, rfl⟩ := List.getElem?_eq_some_iff.mp row
    refine ⟨within, by simp, fun j before same => ?_⟩
    have apart := List.pairwise_iff_getElem.mp distinct j i
      (by simpa using Nat.lt_trans before within) (by simpa using within) before
    simp only [List.getElem_map, ne_eq, beq_iff_eq] at apart same
    exact apart same

end Field

structure Catalog where
  fields : List Field
  sound : ∀ f ∈ fields, f.Sound
  distinct : (fields.map Field.id).Nodup
  index : OrderedMap Nat := Field.rows fields
  indexed : index = Field.rows fields := by rfl

namespace Catalog

def empty : Catalog where
  fields := []
  sound := by simp
  distinct := by simp

def size (c : Catalog) : Nat := c.fields.length

def isEmpty (c : Catalog) : Bool := c.fields.isEmpty

def find? (c : Catalog) (id : String) : Option Field := (c.index.get? id).bind (c.fields[·]?)

def contains (c : Catalog) (id : String) : Bool := c.index.contains id

def operators (c : Catalog) (id : String) : List Operator :=
  match c.find? id with
  | some f => f.operators
  | none => []

theorem get?_index {c : Catalog} {id : String} {i : Nat} :
    c.index.get? id = some i ↔ ∃ f, c.fields[i]? = some f ∧ f.id = id := by
  rw [c.indexed]
  exact Field.get?_rows c.distinct

theorem find?_eq_some_iff {c : Catalog} {id : String} {f : Field} :
    c.find? id = some f ↔ f ∈ c.fields ∧ f.id = id := by
  unfold find?
  rw [Option.bind_eq_some_iff]
  constructor
  · intro parts
    obtain ⟨i, at_i, row⟩ := parts
    obtain ⟨g, same, named⟩ := get?_index.mp at_i
    obtain rfl : f = g := Option.some.inj (row.symm.trans same)
    exact ⟨List.mem_of_getElem? row, named⟩
  · intro parts
    obtain ⟨member, named⟩ := parts
    obtain ⟨i, row⟩ := List.mem_iff_getElem?.mp member
    exact ⟨i, get?_index.mpr ⟨f, row, named⟩, row⟩

theorem contains_iff {c : Catalog} {id : String} : c.contains id = true ↔ ∃ f ∈ c.fields, f.id = id := by
  unfold contains OrderedMap.contains
  rw [Option.isSome_iff_exists]
  constructor
  · intro parts
    obtain ⟨i, at_i⟩ := parts
    obtain ⟨f, row, named⟩ := get?_index.mp at_i
    exact ⟨f, List.mem_of_getElem? row, named⟩
  · intro parts
    obtain ⟨f, member, named⟩ := parts
    obtain ⟨i, row⟩ := List.mem_iff_getElem?.mp member
    exact ⟨i, get?_index.mpr ⟨f, row, named⟩⟩

-- The first operator that the kind does not support, or that stands already in `before`.
def operatorFault? (id : String) (kind : Kind) (before : List Operator) : List Operator → Option Error
  | [] => none
  | o :: rest =>
    if kind.supports o = false then some (.unsupportedOperator id o kind)
    else if o ∈ before then some (.repeatedOperator id o)
    else operatorFault? id kind (o :: before) rest

def fieldFault? (f : Field) : Option Error :=
  if f.operators = [] then some (.noOperators f.id) else operatorFault? f.id f.kind [] f.operators

theorem operatorFault?_eq_none {id : String} {kind : Kind} {before os : List Operator}
    (h : operatorFault? id kind before os = none) :
    (∀ o ∈ os, kind.supports o = true) ∧ os.Nodup ∧ ∀ o ∈ os, o ∉ before := by
  induction os generalizing before with
  | nil => simp
  | cons o rest ih =>
    unfold operatorFault? at h
    split at h
    · cases h
    · split at h
      · cases h
      · rename_i hs hb
        obtain ⟨h₁, h₂, h₃⟩ := ih h
        refine ⟨?_, List.nodup_cons.mpr ⟨fun ho => ?_, h₂⟩, ?_⟩
        · intro p hp
          rcases List.mem_cons.mp hp with rfl | hp
          · simpa using hs
          · exact h₁ p hp
        · exact h₃ o ho (List.mem_cons_self ..)
        · intro p hp
          rcases List.mem_cons.mp hp with rfl | hp
          · exact hb
          · exact fun hp' => h₃ p hp (List.mem_cons_of_mem _ hp')

theorem sound_of_fieldFault? {f : Field} (h : fieldFault? f = none) : f.Sound := by
  unfold fieldFault? at h
  split at h
  · cases h
  · rename_i ho
    obtain ⟨h₁, h₂, _⟩ := operatorFault?_eq_none h
    exact ⟨ho, h₁, h₂⟩

def add (c : Catalog) (f : Field) : Except Error Catalog :=
  match h : fieldFault? f with
  | some e => .error e
  | none =>
    if hid : c.contains f.id = true then .error (.duplicateField f.id)
    else .ok {
      fields := c.fields ++ [f]
      sound := by
        intro g hg
        rcases List.mem_append.mp hg with hg | hg
        · exact c.sound g hg
        · cases List.mem_singleton.mp hg
          exact sound_of_fieldFault? h
      distinct := by
        simp only [List.map_append, List.map_cons, List.map_nil]
        refine List.nodup_append.mpr ⟨c.distinct, by simp, ?_⟩
        intro a ha b hb
        cases List.mem_singleton.mp hb
        intro hab
        obtain ⟨g, member, rfl⟩ := List.mem_map.mp ha
        exact hid (contains_iff.mpr ⟨g, member, hab⟩)
      index := c.index.insert f.id c.fields.length
      indexed := by rw [c.indexed, Field.rows_append] }

def ofFields (fields : List Field) : Except Error Catalog := fields.foldlM add empty

-- A catalogue is reported once it stands; a table that is refused is not.
def build (fields : List Field) : Traced (Except Error Catalog) :=
  match ofFields fields with
  | .error e => pure (.error e)
  | .ok c => do
    .emit (.catalogBuilt c.size)
    pure (.ok c)

def builtInFields : List Field := [
  ⟨"categories", "Categories", .multiSelect, [.isIn, .notIn]⟩,
  ⟨"platforms", "Platforms", .multiSelect, [.isIn, .notIn]⟩,
  ⟨"rpt", "Repeat purchase", .boolean, [.equals]⟩,
  ⟨"is_active", "Active", .boolean, [.equals]⟩,
  ⟨"created_at", "Created at", .date, [.equals, .between]⟩,
  ⟨"updated_at", "Updated at", .date, [.equals, .between]⟩,
  ⟨"ad_name", "Ad name", .text, [.contains]⟩,
  ⟨"advertiser_name", "Advertiser name", .text, [.contains]⟩]

theorem fieldFault?_builtInFields : ∀ f ∈ builtInFields, fieldFault? f = none := by decide

def builtIn : Catalog where
  fields := builtInFields
  sound := fun f hf => sound_of_fieldFault? (fieldFault?_builtInFields f hf)
  distinct := by decide

theorem fields_add {c d : Catalog} {f : Field} (h : c.add f = .ok d) : d.fields = c.fields ++ [f] := by
  unfold add at h
  split at h
  · cases h
  · split at h
    · cases h
    · cases h
      rfl

theorem fields_foldlM_add {fields : List Field} {c d : Catalog} (h : fields.foldlM add c = .ok d) :
    d.fields = c.fields ++ fields := by
  induction fields generalizing c with
  | nil =>
    cases h
    simp
  | cons f fs ih =>
    rw [List.foldlM_cons] at h
    cases hc : c.add f with
    | error e =>
      rw [hc] at h
      cases h
    | ok b =>
      rw [hc] at h
      rw [ih h, fields_add hc, List.append_assoc]
      rfl

theorem fields_ofFields {fields : List Field} {c : Catalog} (h : ofFields fields = .ok c) : c.fields = fields := by
  simpa [empty] using fields_foldlM_add h

end Catalog
end Criteria
