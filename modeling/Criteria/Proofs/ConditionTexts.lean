import Criteria.Encoding
import Criteria.Proofs.ValueTexts

namespace Criteria
open Json

theorem decodeWith_eq_ok_iff {α : Type} {p : Nat → Reader α} {text : String} {a : α} :
    decodeWith p text = .ok a ↔ Json.decode (p room) text = .ok a := by
  unfold decodeWith
  cases Json.decode (p room) text <;> simp [Except.mapError]

theorem decodeWith_takes {α : Type} {p : Nat → Reader α} {v g g' : List Char} {a : α} (takes : Takes (p room) v a)
    (gap : Gap g) (gap' : Gap g') : decodeWith p (String.ofList (g ++ (v ++ g'))) = .ok a :=
  decodeWith_eq_ok_iff.mpr (takes.decode gap gap')

theorem decodeWith_render {α : Type} {p : Nat → Reader α} {v : Json} {a : α} (takes : Takes (p room) v.chars a) :
    decodeWith p v.render = .ok a := by
  simpa [render] using decodeWith_takes takes gap_nil gap_nil

namespace Condition

inductive Part where
  | id | field | operator | value
  deriving DecidableEq

def Part.key : Part → String
  | .id => "id"
  | .field => "field"
  | .operator => "operator"
  | .value => "value"

def Part.all : List Part := [.id, .field, .operator, .value]

-- How a part of a condition may be written. A field that is not set may be blank, and an operator that is not set may
-- be any word that is no operator's.
def Spelled (c : Condition) : Part → List Char → Prop
  | .id, t => StringText t c.id
  | .field, t =>
    match c.field with
    | some f => StringText t f
    | none => t = "null".toList ∨ StringText t ""
  | .operator, t =>
    match c.operator with
    | some o => StringText t o.tag
    | none => t = "null".toList ∨ ∃ s, (∀ o : Operator, s ≠ o.tag) ∧ StringText t s
  | .value, t => t = c.value.toJson.chars

def Unset (c : Condition) : Part → Prop
  | .id => False
  | .field => c.field = none
  | .operator => c.operator = none
  | .value => c.value = .absent

inductive TextOf (c : Condition) : List Char → Prop where
  | object {ms : List (String × List Char)} {t : List Char} : ObjectText ms t →
      (∀ m ∈ ms, ∀ p : Part, p.key = m.1 → c.Spelled p m.2) →
      (∀ m ∈ ms, (∀ p : Part, p.key ≠ m.1) → ValueText m.2) →
      (∀ p : Part, (ms.map Prod.fst).count p.key ≤ 1) →
      (∀ p : Part, p.key ∉ ms.map Prod.fst → c.Unset p) → c.TextOf t
  | positions {vs : List (List Char)} {t : List Char} : ArrayText vs t →
      List.Forall₂ c.Spelled (Part.all.take vs.length) vs → (∀ p ∈ Part.all.drop vs.length, c.Unset p) → c.TextOf t

-- The condition with the parts of `c` under some keys, and nothing else.
def part (c : Condition) (keys : List String) : Condition where
  id := if "id" ∈ keys then c.id else ""
  field := if "field" ∈ keys then c.field else none
  operator := if "operator" ∈ keys then c.operator else none
  value := if "value" ∈ keys then c.value else .absent

theorem part_nil (c : Condition) : c.part [] = layout.start := rfl

theorem part_eq {c : Condition} {keys : List String} (rest : ∀ p : Part, p.key ∉ keys → c.Unset p) :
    c.part keys = c := by
  have id : "id" ∈ keys := by
    by_contra missing
    exact rest .id missing
  have field : "field" ∉ keys → c.field = none := rest .field
  have operator : "operator" ∉ keys → c.operator = none := rest .operator
  have value : "value" ∉ keys → c.value = .absent := rest .value
  cases c
  grind [part]

def Part.slot : Part → Slot Condition
  | .id => layout.slots.get ⟨0, by decide⟩
  | .field => layout.slots.get ⟨1, by decide⟩
  | .operator => layout.slots.get ⟨2, by decide⟩
  | .value => layout.slots.get ⟨3, by decide⟩

theorem slots_layout : layout.slots = Part.all.map Part.slot := rfl

theorem Part.name_slot (p : Part) : p.slot.name = p.key := by cases p <;> rfl

theorem Part.mem_all (p : Part) : p ∈ all := by cases p <;> decide

theorem mem_slots_iff {slot : Slot Condition} : slot ∈ layout.slots ↔ ∃ p : Part, p.slot = slot := by
  rw [slots_layout, List.mem_map]
  simp [Part.mem_all]

theorem depthItems_string (ids : List String) : depthItems (ids.map .string) = 0 := by
  induction ids with
  | nil => rfl
  | cons id ids ih => simp [depthItems, depth, ih]

theorem numberlessItems_string (ids : List String) : numberlessItems (ids.map .string) = true := by
  induction ids with
  | nil => rfl
  | cons id ids ih => simp [numberlessItems, numberless, ih]

theorem depth_toJson (v : Value) : v.toJson.depth ≤ 1 := by
  cases v with
  | selection ids => simp [Value.toJson, depth, depthItems_string]
  | _ => simp [Value.toJson, depth, depthMembers]

theorem numberless_toJson (v : Value) : v.toJson.numberless = true := by
  cases v with
  | selection ids => simp [Value.toJson, numberless, numberlessItems_string]
  | _ => simp [Value.toJson, numberless, numberlessMembers]

theorem takes_value (v : Value) (levels : Nat) : Takes (Value.reader (levels + 1)) v.toJson.chars v := by
  have deep : v.toJson.depth ≤ levels + 1 := Nat.le_trans (depth_toJson v) (Nat.le_add_left 1 levels)
  have takes := (takes_chars (numberless_toJson v) deep).map Value.ofJson
  rwa [Value.ofJson_toJson] at takes

theorem gives_of_takes {c : Condition} {p : Part} {t : List Char} {levels : Nat} {change : Condition → Condition}
    (takes : Takes (p.slot.read levels) t change) (fits : ∀ keys, change (c.part keys) = c.part (p.key :: keys)) :
    Layout.Gives c.part levels p.slot t :=
  ⟨change, takes, by rwa [Part.name_slot]⟩

theorem Spelled.field {c : Condition} (named : c.field ≠ some "") {t : List Char} (spelled : c.Spelled .field t) :
    ∃ given, Takes Reader.textOrNull t given ∧ given.filter (· ≠ "") = c.field := by
  unfold Spelled at spelled
  cases given : c.field with
  | none =>
    rw [given] at spelled
    obtain rfl | spelled := spelled
    · exact ⟨none, takes_textOrNull_null, rfl⟩
    · exact ⟨some "", spelled.takes_textOrNull, rfl⟩
  | some f =>
    rw [given] at spelled
    have filled : f ≠ "" := by simpa [given] using named
    exact ⟨some f, StringText.takes_textOrNull spelled, by simp [filled]⟩

theorem Spelled.operator {c : Condition} {t : List Char} (spelled : c.Spelled .operator t) :
    ∃ given, Takes Reader.textOrNull t given ∧ given.bind Operator.ofTag? = c.operator := by
  unfold Spelled at spelled
  cases chosen : c.operator with
  | none =>
    rw [chosen] at spelled
    obtain rfl | ⟨s, unknown, spelled⟩ := spelled
    · exact ⟨none, takes_textOrNull_null, rfl⟩
    · refine ⟨some s, spelled.takes_textOrNull, ?_⟩
      rw [Option.bind_some, Option.eq_none_iff_forall_ne_some]
      exact fun o known => unknown o (Operator.ofTag?_eq_some_iff.mp known)
  | some o =>
    rw [chosen] at spelled
    exact ⟨some o.tag, StringText.takes_textOrNull spelled, Operator.ofTag?_tag o⟩

theorem Spelled.gives {c : Condition} (named : c.field ≠ some "") {p : Part} {t : List Char}
    (spelled : c.Spelled p t) (levels : Nat) : Layout.Gives c.part (levels + 1) p.slot t := by
  cases p with
  | id =>
    refine gives_of_takes ((StringText.takes_text spelled).map _) fun keys => ?_
    simp [part, Part.key]
  | field =>
    obtain ⟨given, takes, kept⟩ := Spelled.field named spelled
    refine gives_of_takes (takes.map _) fun keys => ?_
    rw [kept]
    simp [part, Part.key]
  | operator =>
    obtain ⟨given, takes, known⟩ := Spelled.operator spelled
    refine gives_of_takes (takes.map _) fun keys => ?_
    rw [known]
    simp [part, Part.key]
  | value =>
    obtain rfl : t = c.value.toJson.chars := spelled
    refine gives_of_takes ((takes_value c.value levels).map _) fun keys => ?_
    simp [part, Part.key]

theorem Unset.free {c : Condition} {p : Part} (unset : c.Unset p) : p.slot.required = false := by
  cases p with
  | id => exact unset.elim
  | _ => rfl

theorem takes_object {c : Condition} {ms : List (String × List Char)} {t : List Char} (named : c.field ≠ some "")
    (members : ObjectText ms t) (spelled : ∀ m ∈ ms, ∀ p : Part, p.key = m.1 → c.Spelled p m.2)
    (others : ∀ m ∈ ms, (∀ p : Part, p.key ≠ m.1) → ValueText m.2)
    (once : ∀ p : Part, (ms.map Prod.fst).count p.key ≤ 1)
    (rest : ∀ p : Part, p.key ∉ ms.map Prod.fst → c.Unset p) (levels : Nat) :
    Takes (layout.read (levels + 2)) t c := by
  have given : ∀ m ∈ ms, ∀ slot ∈ layout.slots, slot.name = m.1 → Layout.Gives c.part (levels + 1) slot m.2 := by
    intro m member slot listed same
    obtain ⟨p, rfl⟩ := mem_slots_iff.mp listed
    exact (spelled m member p (p.name_slot.symm.trans same)).gives named levels
  have unknown : ∀ m ∈ ms, (∀ slot ∈ layout.slots, slot.name ≠ m.1) → ValueText m.2 := by
    intro m member other
    exact others m member fun p same => other p.slot (mem_slots_iff.mpr ⟨p, rfl⟩) (p.name_slot.trans same)
  have single : ∀ slot ∈ layout.slots, (ms.map Prod.fst).count slot.name ≤ 1 := by
    intro slot listed
    obtain ⟨p, rfl⟩ := mem_slots_iff.mp listed
    exact p.name_slot ▸ once p
  have there : ∀ slot ∈ layout.slots, slot.required = true → slot.name ∈ ms.map Prod.fst := by
    intro slot listed required
    obtain ⟨p, rfl⟩ := mem_slots_iff.mp listed
    by_contra missing
    rw [p.name_slot] at missing
    rw [(rest p missing).free] at required
    cases required
  have takes := Layout.takes_object (part_nil c) members given unknown single there
  rwa [part_eq] at takes
  intro p missing
  refine rest p fun present => missing ?_
  rw [← p.name_slot] at present ⊢
  exact (Layout.mem_named_iff (mem_slots_iff.mpr ⟨p, rfl⟩) ms).mpr present

theorem takes_positions {c : Condition} {vs : List (List Char)} {t : List Char} (named : c.field ≠ some "")
    (items : ArrayText vs t) (spelled : List.Forall₂ c.Spelled (Part.all.take vs.length) vs)
    (rest : ∀ p ∈ Part.all.drop vs.length, c.Unset p) (levels : Nat) : Takes (layout.read (levels + 2)) t c := by
  have given : List.Forall₂ (Layout.Gives c.part (levels + 1)) (layout.slots.take vs.length) vs := by
    rw [slots_layout, ← List.map_take, List.forall₂_map_left_iff]
    exact spelled.imp fun _ _ part => part.gives named levels
  have free : ∀ slot ∈ layout.slots.drop vs.length, slot.required = false := by
    rw [slots_layout, ← List.map_drop]
    intro slot member
    obtain ⟨p, left, rfl⟩ := List.mem_map.mp member
    exact (rest p left).free
  have fills := Layout.fills_part given free []
  rw [part_nil, part_eq] at fills
  · exact Layout.takes_positions items fills
  · intro p missing
    have either : p ∈ Part.all.take vs.length ++ Part.all.drop vs.length := by
      rw [List.take_append_drop]
      exact p.mem_all
    refine rest p ((List.mem_append.mp either).resolve_left fun taken => missing ?_)
    rw [slots_layout, ← List.map_take, List.append_nil, List.mem_reverse, List.map_map, ← p.name_slot]
    exact List.mem_map_of_mem taken

theorem TextOf.takes {c : Condition} {t : List Char} (written : c.TextOf t) (named : c.field ≠ some "")
    (levels : Nat) : Takes (layout.read (levels + 2)) t c := by
  cases written with
  | object members spelled others once rest => exact takes_object named members spelled others once rest levels
  | positions items spelled rest => exact takes_positions named items spelled rest levels

def settled (c : Condition) : Condition := { c with field := c.field.filter (· ≠ "") }

theorem settled_named (c : Condition) : c.settled.field ≠ some "" := by
  cases given : c.field <;> simp [settled, given]

theorem settled_eq_iff {c : Condition} : c.settled = c ↔ c.field ≠ some "" := by
  cases c
  rename_i field _ _
  cases field <;> simp [settled, Option.filter_eq_some_iff]

def tree (c : Condition) : Part → Json
  | .id => .string c.id
  | .field => (c.field.map .string).getD .null
  | .operator => (c.operator.map Operator.toJson).getD .null
  | .value => c.value.toJson

theorem toJson_eq (c : Condition) : c.toJson = .object (Part.all.map fun p => (p.key, c.tree p)) := rfl

theorem Part.key_inj {p q : Part} : p.key = q.key ↔ p = q := by
  constructor
  · cases p <;> cases q <;> decide
  · intro equal
    cases equal
    rfl

theorem spelled_tree (c : Condition) (p : Part) : c.settled.Spelled p (c.tree p).chars := by
  cases p with
  | id => exact stringText_writeString c.id
  | field =>
    unfold Spelled
    obtain ⟨id, field, operator, value⟩ := c
    cases field with
    | none => exact .inl rfl
    | some f =>
      by_cases blank : f = ""
      · subst blank
        exact .inr (stringText_writeString "")
      · have kept : (settled ⟨id, some f, operator, value⟩).field = some f := by simp [settled, blank]
        rw [kept]
        exact stringText_writeString f
  | operator =>
    unfold Spelled
    obtain ⟨_, _, operator, _⟩ := c
    cases operator with
    | none => exact .inl rfl
    | some o => exact stringText_writeString o.tag
  | value => rfl

theorem textOf_toJson (c : Condition) : c.settled.TextOf c.toJson.chars := by
  rw [toJson_eq]
  refine .object (objectText_chars _) ?_ ?_ ?_ ?_
  · intro m member p same
    simp only [List.map_map, List.mem_map, Function.comp_apply] at member
    obtain ⟨q, _, rfl⟩ := member
    obtain rfl := Part.key_inj.mp same
    exact c.spelled_tree p
  · intro m member other
    simp only [List.map_map, List.mem_map, Function.comp_apply] at member
    obtain ⟨q, _, rfl⟩ := member
    exact absurd rfl (other q)
  · intro p
    change (Part.all.map Part.key).count p.key ≤ 1
    cases p <;> decide
  · intro p missing
    exact absurd (List.mem_map_of_mem (f := Part.key) p.mem_all) missing

theorem takes_toJson (c : Condition) (levels : Nat) : Takes (layout.read (levels + 2)) c.toJson.chars c.settled :=
  c.textOf_toJson.takes c.settled_named levels

theorem decode_toJson (c : Condition) :
    decode c.toJson.render = .ok { c with field := c.field.filter (· ≠ "") } ∧
    (decode c.toJson.render = .ok c ↔ c.field ≠ some "") ∧
    (∀ v : Value, Value.decode v.toJson.render = .ok v) ∧
    ∀ v w : Value, v.toJson.render = w.toJson.render → v = w := by
  have read : decode c.toJson.render = .ok c.settled := decodeWith_render (c.takes_toJson 125)
  have values : ∀ v : Value, Value.decode v.toJson.render = .ok v := fun v => decodeWith_render (takes_value v 126)
  refine ⟨read, ?_, values, ?_⟩
  · rw [read, Except.ok.injEq, settled_eq_iff]
  · intro v w same
    have both := (values v).symm.trans (same ▸ values w)
    exact Except.ok.inj both

theorem decode_textOf {c : Condition} {t g g' : List Char} (named : c.field ≠ some "") (written : c.TextOf t)
    (gap : Gap g) (gap' : Gap g') : decode (String.ofList (g ++ (t ++ g'))) = .ok c :=
  decodeWith_takes (written.takes named 125) gap gap'

-- Members out of order, the value with no field, a key with an escape, an operator that is none, and a member of
-- another name whose value would not be read.
def shuffled : String :=
  "\x7b\"value\" : [\"3\"],\n\"tags\":[-1e999, \x7b\"y\":\"\\ud800\"\x7d],\"operator\":\"like\",\"i\\u0064\":\"c\"\x7d"

theorem valueText_tags : ValueText "[-1e999, \x7b\"y\":\"\\ud800\"\x7d]".toList := by
  have digits : FourDigits "d800".toList 0xD800 := ⟨_, _, _, _, 13, 8, 0, 0, rfl, rfl, rfl, rfl, rfl, rfl⟩
  have half : AnyStringText "\"\\ud800\"".toList :=
    ⟨_, _, rfl, .next (p := "\\ud800".toList) (.numbered ⟨rfl, _, digits⟩) .done⟩
  have key : AnyStringText "\"y\"".toList := ⟨_, _, rfl, .next (.plain (by decide) (by decide) (by decide)) .done⟩
  have number : ValueText "-1e999".toList := .number ⟨['-'], ['1'], [], "e999".toList, .inr rfl, by decide, .inl rfl,
    .inr ⟨'e', [], "999".toList, .inl rfl, .inl rfl, by decide, rfl⟩, rfl⟩
  have member : MemberText "\"y\"".toList "\"\\ud800\"".toList "\"y\":\"\\ud800\"".toList :=
    ⟨[], [], gap_nil, gap_nil, rfl⟩
  have braces : Enclosed '}' ["\"y\":\"\\ud800\"".toList] "\"y\":\"\\ud800\"\x7d".toList :=
    .some (g := []) (t := ['}']) gap_nil (.stop gap_nil)
  have object : ValueText "\x7b\"y\":\"\\ud800\"\x7d".toList :=
    .object braces (.cons (a := (_, _)) member .nil) (List.forall_mem_singleton.mpr key)
      (List.forall_mem_singleton.mpr (.string half))
  have brackets : Enclosed ']' ["-1e999".toList, "\x7b\"y\":\"\\ud800\"\x7d".toList]
      "-1e999, \x7b\"y\":\"\\ud800\"\x7d]".toList :=
    .some (g := []) gap_nil (.more (g := []) gap_nil (by decide : Gap [' ']) (.stop gap_nil))
  exact .array brackets (by simpa using ⟨number, object⟩)

theorem objectText_shuffled : ObjectText [("value", "[\"3\"]".toList),
    ("tags", "[-1e999, \x7b\"y\":\"\\ud800\"\x7d]".toList), ("operator", "\"like\"".toList), ("id", "\"c\"".toList)]
    shuffled.toList := by
  have i : PieceText CodeText ['i'] 'i' := .plain (by decide) (by decide) (by decide)
  have d : PieceText CodeText "\\u0064".toList 'd' :=
    .numbered (.single ⟨_, _, _, _, 0, 0, 6, 4, rfl, rfl, rfl, rfl, rfl, rfl⟩ rfl rfl)
  have key : StringText "\"i\\u0064\"".toList "id" := ⟨_, rfl, .next i (.next d .done)⟩
  refine ⟨["\"value\" : [\"3\"]".toList, "\"tags\":[-1e999, \x7b\"y\":\"\\ud800\"\x7d]".toList,
    "\"operator\":\"like\"".toList, "\"i\\u0064\":\"c\"".toList], _, rfl, ?_, ?_⟩
  · refine .some (g := []) gap_nil (.more (g := []) gap_nil (by decide : Gap ['\n']) ?_)
    exact .more (g := []) gap_nil gap_nil (.more (g := []) gap_nil gap_nil (.stop gap_nil))
  · refine .cons ?_ (.cons ?_ (.cons ?_ (.cons ?_ .nil)))
    · exact ⟨_, stringText_writeString "value", [' '], [' '], by decide, by decide, rfl⟩
    · exact ⟨_, stringText_writeString "tags", [], [], gap_nil, gap_nil, rfl⟩
    · exact ⟨_, stringText_writeString "operator", [], [], gap_nil, gap_nil, rfl⟩
    · exact ⟨_, key, [], [], gap_nil, gap_nil, rfl⟩

theorem decode_textOf_shuffled :
    (⟨"c", none, none, .selection ["3"]⟩ : Condition).TextOf shuffled.toList ∧
    decode (" " ++ shuffled ++ "\n") = .ok ⟨"c", none, none, .selection ["3"]⟩ := by
  have written : (⟨"c", none, none, .selection ["3"]⟩ : Condition).TextOf shuffled.toList := by
    refine .object objectText_shuffled ?_ ?_ ?_ ?_
    · intro m member p same
      simp only [List.mem_cons, List.not_mem_nil, or_false] at member
      obtain rfl | rfl | rfl | rfl := member
      · obtain rfl : p = .value := Part.key_inj.mp same
        rfl
      · exact absurd same (by cases p <;> decide)
      · obtain rfl : p = .operator := Part.key_inj.mp same
        exact .inr ⟨"like", fun o => by cases o <;> decide, stringText_writeString "like"⟩
      · obtain rfl : p = .id := Part.key_inj.mp same
        exact stringText_writeString "c"
    · intro m member other
      simp only [List.mem_cons, List.not_mem_nil, or_false] at member
      obtain rfl | rfl | rfl | rfl := member
      · exact absurd rfl (other .value)
      · exact valueText_tags
      · exact absurd rfl (other .operator)
      · exact absurd rfl (other .id)
    · intro p
      cases p <;> decide
    · intro p missing
      cases p <;> first | rfl | exact absurd (by decide) missing
  have spaced : " " ++ shuffled ++ "\n" = String.ofList ([' '] ++ (shuffled.toList ++ ['\n'])) := by
    simp [String.ofList_append, String.append_assoc]
  rw [spaced]
  exact ⟨written, decode_textOf (by simp) written (by decide) (by decide)⟩

theorem keeps_named : layout.Keeps fun c => c.field ≠ some "" := by
  intro slot listed room s change r read c named
  obtain ⟨p, rfl⟩ := mem_slots_iff.mp listed
  cases p with
  | field =>
    obtain ⟨f, _, rfl⟩ := Reader.reads_map.mp read
    cases f <;> simp
  | _ =>
    obtain ⟨_, _, rfl⟩ := Reader.reads_map.mp read
    exact named

theorem named_of_decodeList {text : String} {cs : List Condition} (read : decodeList text = .ok cs) {c : Condition}
    (member : c ∈ cs) : c.field ≠ some "" := by
  obtain ⟨_, read, _⟩ := decode_eq_ok_iff.mp (decodeWith_eq_ok_iff.mp read)
  obtain ⟨_, _, _, single⟩ := exists_reads_of_mem_sequence read member
  exact keeps_named.read (by simp [layout, blank]) single

theorem decodeList_listToJson {cs : List Condition} (named : ∀ c ∈ cs, c.field ≠ some "") :
    decodeList (listToJson cs).render = .ok cs := by
  have each : List.Forall₂ (Takes (layout.read 126)) ((cs.map toJson).map chars) cs := by
    rw [List.map_map, List.forall₂_map_left_iff, List.forall₂_same]
    intro c member
    have takes := c.takes_toJson 124
    rwa [settled_eq_iff.mpr (named c member)] at takes
  obtain ⟨t, whole, enclosed⟩ := arrayText_chars (cs.map toJson)
  refine decodeWith_render ?_
  rw [listToJson, whole]
  exact takes_sequence enclosed each

theorem decodeList_settled {text : String} {cs : List Condition} (read : decodeList text = .ok cs) :
    (∀ c ∈ cs, c.field ≠ some "") ∧ decodeList (listToJson cs).render = .ok cs := by
  have named : ∀ c ∈ cs, c.field ≠ some "" := fun c member => named_of_decodeList read member
  exact ⟨named, decodeList_listToJson named⟩

-- By name and by position, with numbers, a mixed array, a period without its end, and parts that are blank or unknown.
def loose : String :=
  "[\x7b\"operator\":\"like\",\"id\":\"a\",\"field\":\"\",\"value\":[\"3\",7]\x7d, [\"b\", \"created_at\", \"between\", " ++
    "\x7b\"end\":5, \"start\":\"\", \"start\":\"\\u00e9\"\x7d],\n\x7b\"id\":\"\",\"value\":[true,\"3\"]\x7d, " ++
    "[\"d\", null, \"\", 5]]"

theorem decodeList_settled_loose :
    let cs : List Condition := [⟨"a", none, none, .selection ["3", "7"]⟩,
      ⟨"b", some "created_at", some .between, .period ⟨"é", ""⟩⟩, .blank "", ⟨"d", none, none, .text "5"⟩]
    decodeList loose = .ok cs ∧ (∀ c ∈ cs, c.field ≠ some "") ∧ decodeList (listToJson cs).render = .ok cs := by
  intro cs
  have read : decodeList loose = .ok cs := by decide +kernel
  exact ⟨read, decodeList_settled read⟩

end Condition
end Criteria
