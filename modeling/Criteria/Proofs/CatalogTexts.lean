import Criteria.Proofs.ConditionTexts
import Criteria.Proofs.Lookup

namespace Criteria
open Json

theorem Json.StringText.takes_variant {α : Type} {known : List (String × α)} {t : List Char} {tag : String} {a : α}
    (spelled : StringText t tag) (listed : known.lookup tag = some a) (room : Nat) :
    Takes (Reader.variant known room) t a := by
  obtain ⟨b, rfl⟩ := spelled.begins
  refine .choose (by decide) (by decide) fun r _ => Reader.reads_check.mpr ⟨tag, spelled.reads r, ?_⟩
  simp only [Reader.variantNamed, listed]

theorem Operator.lookup_tagged (o : Operator) : tagged.lookup o.tag = some o := by cases o <;> rfl

theorem Kind.lookup_tagged (k : Kind) : tagged.lookup k.tag = some k := by cases k <;> rfl

theorem Json.itemChars_eq (vs : List Json) : itemChars vs = (",".intercalate (vs.map render)).toList ++ [']'] := by
  induction vs with
  | nil => rfl
  | cons v vs ih =>
    cases vs with
    | nil => simp [itemChars, moreItemChars, render]
    | cons w vs =>
      have rest : chars w ++ moreItemChars vs = itemChars (w :: vs) := by rw [itemChars]
      rw [itemChars, moreItemChars, List.cons_append, rest, ih]
      simp [render, String.intercalate_cons_cons]

namespace Field

def keys : List String := ["id", "label", "kind", "operators"]

-- How a member of a field may be written, by its key; members with other keys do not count.
inductive Spelled (f : Field) : String → List Char → Prop where
  | id {t : List Char} (spelled : StringText t f.id) : f.Spelled "id" t
  | label {t : List Char} (spelled : StringText t f.label) : f.Spelled "label" t
  | kind {t : List Char} (spelled : StringText t f.kind.tag) : f.Spelled "kind" t
  | operators {ts : List (List Char)} {t : List Char} (listed : ArrayText ts t)
      (spelled : List.Forall₂ (fun t o => StringText t o.tag) ts f.operators) : f.Spelled "operators" t
  | other {key : String} {t : List Char} (unknown : key ∉ keys) (value : ValueText t) : f.Spelled key t

inductive TextOf (f : Field) : List Char → Prop where
  | object (ms : List (String × List Char)) {t : List Char} (members : ObjectText ms t)
      (spelled : ∀ m ∈ ms, f.Spelled m.1 m.2) (once : ∀ key ∈ keys, (ms.map Prod.fst).count key ≤ 1)
      (rest : ∀ key ∈ keys, key ∉ ms.map Prod.fst → key = "label" ∧ f.label = "") : f.TextOf t

def part (f : Field) (keys : List String) : Field where
  id := if "id" ∈ keys then f.id else ""
  label := if "label" ∈ keys then f.label else ""
  kind := if "kind" ∈ keys then f.kind else .text
  operators := if "operators" ∈ keys then f.operators else []

theorem part_nil (f : Field) : f.part [] = layout.start := rfl

theorem names_layout : layout.slots.map Slot.name = keys := rfl

theorem mem_keys_iff {key : String} : key ∈ keys ↔ ∃ slot ∈ layout.slots, slot.name = key := by
  rw [← names_layout, List.mem_map]

theorem slot_eq {i : Nat} (within : i < layout.slots.length) {slot : Slot Field} (listed : slot ∈ layout.slots)
    (named : slot.name = (layout.slots.get ⟨i, within⟩).name) : slot = layout.slots.get ⟨i, within⟩ :=
  List.inj_on_of_nodup_map (f := Slot.name) (by rw [names_layout]; decide) listed (List.get_mem ..) named

variable {f : Field}

theorem takes_operators {ts : List (List Char)} {t : List Char} {os : List Operator} (listed : ArrayText ts t)
    (spelled : List.Forall₂ (fun t o => StringText t o.tag) ts os) (levels : Nat) :
    Takes (Reader.sequence Operator.reader (levels + 1)) t os := by
  obtain ⟨u, rfl, enclosed⟩ := listed
  refine takes_sequence enclosed (spelled.imp fun _ o spelled => ?_)
  exact spelled.takes_variant o.lookup_tagged levels

theorem Spelled.gives {key : String} {t : List Char} (spelled : f.Spelled key t) {slot : Slot Field}
    (listed : slot ∈ layout.slots) (named : slot.name = key) (levels : Nat) :
    Layout.Gives f.part (levels + 1) slot t := by
  cases spelled with
  | id spelled =>
    obtain rfl := slot_eq (i := 0) (by decide) listed named
    refine ⟨_, spelled.takes_text.map _, fun keys => ?_⟩
    change _ = f.part ("id" :: keys)
    simp [part]
  | label spelled =>
    obtain rfl := slot_eq (i := 1) (by decide) listed named
    refine ⟨_, spelled.takes_text.map _, fun keys => ?_⟩
    change _ = f.part ("label" :: keys)
    simp [part]
  | kind spelled =>
    obtain rfl := slot_eq (i := 2) (by decide) listed named
    refine ⟨_, (spelled.takes_variant f.kind.lookup_tagged (levels + 1)).map _, fun keys => ?_⟩
    change _ = f.part ("kind" :: keys)
    simp [part]
  | operators items spelled =>
    obtain rfl := slot_eq (i := 3) (by decide) listed named
    refine ⟨_, (takes_operators items spelled levels).map _, fun keys => ?_⟩
    change _ = f.part ("operators" :: keys)
    simp [part]
  | other unknown => exact absurd (mem_keys_iff.mpr ⟨slot, listed, named⟩) unknown

theorem Spelled.value {key : String} {t : List Char} (spelled : f.Spelled key t) (unknown : key ∉ keys) :
    ValueText t := by
  cases spelled with
  | other _ value => exact value
  | _ => exact absurd (by decide) unknown

theorem part_eq {names : List String} (rest : ∀ key ∈ keys, key ∉ names → key = "label" ∧ f.label = "") :
    f.part names = f := by
  have given {key : String} (listed : key ∈ keys) (other : key ≠ "label") : key ∈ names := by
    by_contra missing
    exact other (rest key listed missing).1
  have id : "id" ∈ names := given (by decide) (by decide)
  have kind : "kind" ∈ names := given (by decide) (by decide)
  have operators : "operators" ∈ names := given (by decide) (by decide)
  have label : (if "label" ∈ names then f.label else "") = f.label := by
    split
    · rfl
    · rename_i missing
      exact (rest "label" (by decide) missing).2.symm
  simp only [part, id, kind, operators, label, if_true]

theorem TextOf.takes {t : List Char} (written : f.TextOf t) (levels : Nat) : Takes (layout.read (levels + 2)) t f := by
  obtain ⟨ms, members, spelled, once, rest⟩ := written
  have given : ∀ m ∈ ms, ∀ slot ∈ layout.slots, slot.name = m.1 → Layout.Gives f.part (levels + 1) slot m.2 :=
    fun m member slot listed named => (spelled m member).gives listed named levels
  have others : ∀ m ∈ ms, (∀ slot ∈ layout.slots, slot.name ≠ m.1) → ValueText m.2 := by
    intro m member other
    refine (spelled m member).value fun known => ?_
    obtain ⟨slot, listed, named⟩ := mem_keys_iff.mp known
    exact other slot listed named
  have single : ∀ slot ∈ layout.slots, (ms.map Prod.fst).count slot.name ≤ 1 :=
    fun slot listed => once slot.name (mem_keys_iff.mpr ⟨slot, listed, rfl⟩)
  have there : ∀ slot ∈ layout.slots, slot.required = true → slot.name ∈ ms.map Prod.fst := by
    intro slot listed required
    by_contra missing
    have label := (rest slot.name (mem_keys_iff.mpr ⟨slot, listed, rfl⟩) missing).1
    obtain rfl := slot_eq (i := 1) (by decide) listed label
    cases required
  have takes := Layout.takes_object f.part_nil members given others single there
  rwa [part_eq] at takes
  intro key known missing
  refine rest key known fun present => missing ?_
  obtain ⟨slot, listed, rfl⟩ := mem_keys_iff.mp known
  exact (Layout.mem_named_iff listed ms).mpr present

theorem textOf_toJson (f : Field) : f.TextOf f.toJson.chars := by
  refine .object _ (objectText_chars _) ?_ ?_ ?_
  · intro m member
    simp only [List.map_cons, List.map_nil, List.mem_cons, List.not_mem_nil, or_false] at member
    obtain rfl | rfl | rfl | rfl := member
    · exact .id (stringText_writeString f.id)
    · exact .label (stringText_writeString f.label)
    · exact .kind (stringText_writeString f.kind.tag)
    · refine .operators (arrayText_chars _) ?_
      rw [List.map_map, List.forall₂_map_left_iff, List.forall₂_same]
      exact fun o _ => stringText_writeString o.tag
  · intro key _
    change keys.count key ≤ 1
    exact List.nodup_iff_count_le_one.mp (by decide) key
  · intro key known missing
    exact absurd known missing

end Field

namespace Catalog

def Listing (fields : List Field) (t : List Char) : Prop :=
  ∃ ts, ArrayText ts t ∧ List.Forall₂ (fun t f => f.TextOf t) ts fields

-- A catalogue is written with its fields once, and with whatever else.
inductive TextOf (fields : List Field) : List Char → Prop where
  | object (ms : List (String × List Char)) {t : List Char} (members : ObjectText ms t)
      (listed : ∀ m ∈ ms, m.1 = "fields" → Listing fields m.2) (others : ∀ m ∈ ms, m.1 ≠ "fields" → ValueText m.2)
      (once : (ms.map Prod.fst).count "fields" = 1) : TextOf fields t

def part (fields : List Field) (keys : List String) : List Field := if "fields" ∈ keys then fields else []

theorem part_nil (fields : List Field) : part fields [] = layout.start := rfl

variable {fields : List Field}

theorem Listing.takes {t : List Char} (listing : Listing fields t) (levels : Nat) :
    Takes (Reader.sequence Field.layout.read (levels + 3)) t fields := by
  obtain ⟨ts, ⟨u, rfl, enclosed⟩, spelled⟩ := listing
  exact takes_sequence enclosed (spelled.imp fun _ _ written => written.takes levels)

def slot : Slot (List Field) := layout.slots.get ⟨0, by decide⟩

theorem mem_slots_iff {s : Slot (List Field)} : s ∈ layout.slots ↔ s = slot := List.mem_singleton

theorem Listing.gives {t : List Char} (listing : Listing fields t) (levels : Nat) :
    Layout.Gives (part fields) (levels + 3) slot t := by
  refine ⟨_, (listing.takes levels).map _, fun keys => ?_⟩
  change fields = part fields ("fields" :: keys)
  simp [part]

theorem TextOf.takes {t : List Char} (written : TextOf fields t) (levels : Nat) :
    Takes (layout.read (levels + 4)) t fields := by
  obtain ⟨ms, members, listed, others, once⟩ := written
  have present : "fields" ∈ ms.map Prod.fst := List.count_pos_iff.mp (by omega)
  have given : ∀ m ∈ ms, ∀ s ∈ layout.slots, s.name = m.1 → Layout.Gives (part fields) (levels + 3) s m.2 := by
    intro m member s known named
    obtain rfl := mem_slots_iff.mp known
    exact (listed m member named.symm).gives levels
  have unknown : ∀ m ∈ ms, (∀ s ∈ layout.slots, s.name ≠ m.1) → ValueText m.2 := fun m member other =>
    others m member fun named => other slot (mem_slots_iff.mpr rfl) named.symm
  have single : ∀ s ∈ layout.slots, (ms.map Prod.fst).count s.name ≤ 1 := by
    intro s known
    obtain rfl := mem_slots_iff.mp known
    exact Nat.le_of_eq once
  have there : ∀ s ∈ layout.slots, s.required = true → s.name ∈ ms.map Prod.fst := by
    intro s known _
    obtain rfl := mem_slots_iff.mp known
    exact present
  have takes := Layout.takes_object (part_nil fields) members given unknown single there
  have named : "fields" ∈ layout.named ms := (Layout.mem_named_iff (mem_slots_iff.mpr rfl) ms).mpr present
  rwa [part, if_pos named] at takes

theorem render_toJson (fields : List Field) : (toJson fields).render =
    "\x7b\"fields\":[" ++ ",".intercalate (fields.map fun f => f.toJson.render) ++ "]\x7d" := by
  have key : writeString "fields" = "\"fields\"".toList := by decide
  rw [String.ext_iff]
  simp [toJson, render, chars, memberChars, moreMemberChars, itemChars_eq, key, Function.comp_def]

theorem textOf_toJson (fields : List Field) : TextOf fields (toJson fields).chars := by
  refine .object _ (objectText_chars _) ?_ ?_ rfl
  · intro m member _
    obtain rfl := List.mem_singleton.mp member
    refine ⟨_, arrayText_chars _, ?_⟩
    rw [List.map_map, List.forall₂_map_left_iff, List.forall₂_same]
    exact fun f _ => f.textOf_toJson
  · intro m member other
    obtain rfl := List.mem_singleton.mp member
    exact absurd rfl other

theorem decode_eq_build (fields : List Field) :
    decode ("\x7b\"fields\":[" ++ ",".intercalate (fields.map fun f => f.toJson.render) ++ "]\x7d") = build fields ∧
    ∀ t g g' : List Char, TextOf fields t → Gap g → Gap g' → decode (.ofList (g ++ (t ++ g'))) = build fields := by
  constructor
  · rw [← render_toJson]
    exact decode_of_rows (decodeWith_render ((textOf_toJson fields).takes 123))
  · intro t g g' written gap gap'
    exact decode_of_rows (decodeWith_takes (written.takes 123) gap gap')

-- Two rows with one id; in the first one the members are out of order, with another one among them and no label.

def twins : List Field := [⟨"dé", "", .text, [.contains]⟩, ⟨"dé", "Day", .date, [.between, .equals]⟩]

def firstTwin : Json := .object [
  ("operators", .array [.string "contains"]),
  ("hint", .null),
  ("kind", .string "text"),
  ("id", .string "dé")]

def twinsText : Json := .object [("fields", .array [firstTwin, Field.toJson ⟨"dé", "Day", .date, [.between, .equals]⟩])]

theorem textOf_firstTwin : (⟨"dé", "", .text, [.contains]⟩ : Field).TextOf firstTwin.chars := by
  refine .object _ (objectText_chars _) ?_ ?_ ?_
  · intro m member
    simp only [List.map_cons, List.map_nil, List.mem_cons, List.not_mem_nil, or_false] at member
    obtain rfl | rfl | rfl | rfl := member
    · exact .operators (arrayText_chars _) (.cons (stringText_writeString _) .nil)
    · exact .other (by decide) .null
    · exact .kind (stringText_writeString _)
    · exact .id (stringText_writeString _)
  · decide
  · decide

theorem textOf_twinsText : TextOf twins twinsText.chars := by
  refine .object _ (objectText_chars _) ?_ ?_ rfl
  · intro m member _
    obtain rfl := List.mem_singleton.mp member
    exact ⟨_, arrayText_chars _, .cons textOf_firstTwin (.cons (Field.textOf_toJson _) .nil)⟩
  · intro m member other
    obtain rfl := List.mem_singleton.mp member
    exact absurd rfl other

theorem decode_eq_build_twins :
    TextOf twins twinsText.chars ∧
    decode (.ofList ([' '] ++ (twinsText.chars ++ ['\n']))) = ⟨.error (.duplicateField "dé"), []⟩ := by
  refine ⟨textOf_twinsText, ?_⟩
  rw [(decode_eq_build twins).2 twinsText.chars [' '] ['\n'] textOf_twinsText (by decide) (by decide)]
  rfl

end Catalog
end Criteria
