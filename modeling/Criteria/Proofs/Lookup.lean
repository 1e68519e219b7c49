import Criteria.Encoding
import Criteria.Proofs.TableFaults

namespace Criteria.Catalog

structure Agrees (c : Catalog) (fields : List Field) (id : String) : Prop where
  -- The index has the row of the id, for every row that is there and for no other.
  placed : ∀ i, c.index.get? id = some i ↔ ∃ f, fields[i]? = some f ∧ f.id = id
  within : ∀ i, c.index.get? id = some i → i < fields.length
  found : ∀ f, c.find? id = some f ↔ f ∈ fields ∧ f.id = id
  once : (fields.map Field.id).count id ≤ 1
  known : c.contains id = true ↔ ∃ f, c.find? id = some f
  offered : ∀ f, c.find? id = some f → c.operators id = f.operators
  unknown : c.find? id = none → c.operators id = []
  filled : ∀ f, c.find? id = some f → f.operators ≠ []
  distinct : ∀ f, c.find? id = some f → f.operators.Nodup
  allowed : ∀ f, c.find? id = some f → ∀ o ∈ f.operators, o ∈ f.kind.allowed

theorem agrees (c : Catalog) (id : String) : c.Agrees c.fields id where
  placed i := get?_index
  within i at_i := by
    obtain ⟨f, row, _⟩ := get?_index.mp at_i
    exact (List.getElem?_eq_some_iff.mp row).1
  found f := find?_eq_some_iff
  once := List.nodup_iff_count_le_one.mp c.distinct id
  known := by simp only [contains_iff, find?_eq_some_iff]
  offered f found := by simp only [operators, found]
  unknown absent := by simp only [operators, absent]
  filled f found := (c.sound f (find?_eq_some_iff.mp found).1).offers
  distinct f found := (c.sound f (find?_eq_some_iff.mp found).1).distinct
  allowed f found o offered := Kind.supports_iff.mp ((c.sound f (find?_eq_some_iff.mp found).1).supported o offered)

inductive Built (c : Catalog) (fields : List Field) : Prop where
  | rows (built : (build fields).value = .ok c)
  | text {t : String} (rows : decodeWith layout.read t = .ok fields) (read : (decode t).value = .ok c)

theorem fields_of_build {c : Catalog} {fields : List Field} (built : (build fields).value = .ok c) :
    c.fields = fields := by
  cases taken : ofFields fields with
  | ok d =>
    rw [build_of_ok taken] at built
    obtain rfl := Except.ok.inj built
    exact fields_ofFields taken
  | error e =>
    rw [build_of_error taken] at built
    cases built

theorem decode_of_rows {t : String} {fields : List Field} (rows : decodeWith layout.read t = .ok fields) :
    decode t = build fields := by
  simp only [decode, rows]

theorem fields_of_built {c : Catalog} {fields : List Field} (built : c.Built fields) : c.fields = fields := by
  cases built with
  | rows built => exact fields_of_build built
  | text rows read => exact fields_of_build (decode_of_rows rows ▸ read)

theorem agrees_of_built {c : Catalog} {fields : List Field} (built : c.Built fields) (id : String) :
    c.fields = fields ∧ c.Agrees fields id := by
  obtain rfl := fields_of_built built
  exact ⟨rfl, c.agrees id⟩

-- Two rows: one with no id, and one written out of order, without a label and with an escape in its id.

def listedFields : List Field := [⟨"", "No id", .text, [.contains]⟩, ⟨"dé", "", .date, [.between, .equals]⟩]

def listing : String :=
  "\x7b\"fields\": [[\"\", \"No id\", \"text\", [\"contains\"]],\n" ++
    "\x7b\"operators\":[\"between\", \"eq\"], \"kind\":\"date\", \"id\":\"d\\u00e9\"\x7d]\x7d"

theorem fieldFault?_listedFields : ∀ f ∈ listedFields, fieldFault? f = none := by decide

def listed : Catalog where
  fields := listedFields
  sound := fun f member => sound_of_fieldFault? (fieldFault?_listedFields f member)
  distinct := by decide

theorem agrees_of_built_listing :
    listed.Built listedFields ∧ listed.fields = listedFields ∧ listed.Agrees listedFields "dé" ∧
      listed.Agrees listedFields "d" := by
  have rows : decodeWith layout.read listing = .ok listedFields := by decide +kernel
  have built : listed.Built listedFields := by
    refine .text rows ?_
    rw [decode_of_rows rows]
    rfl
  exact ⟨built, (agrees_of_built built "dé").1, (agrees_of_built built "dé").2, (agrees_of_built built "d").2⟩

end Criteria.Catalog
