import Criteria.Proofs.ConditionTexts
import Criteria.Proofs.Merge
import Criteria.Query

namespace Criteria

namespace Json

inductive Gives : Json → String → Prop where
  | string (s : String) : Gives (.string s) s
  | number (n : Number) : Gives (.number n) n.text

def GivesId (j : Json) : Prop := (∃ s, j = .string s) ∨ ∃ n, j = .number n

-- The end of a period under a key: the string that is given there last, and blank if what is given there last is no
-- string, or nothing is.
def EndGiven (members : List (String × Json)) (key s : String) : Prop :=
  GivenLast members key (.string s) ∨ s = "" ∧ ∀ t, ¬ GivenLast members key (.string t)

inductive StandsFor : Json → Value → Prop where
  | absent : StandsFor .null .absent
  | flag (b : Bool) : StandsFor (.bool b) (.flag b)
  | number (n : Number) : StandsFor (.number n) (.text n.text)
  | text (s : String) : StandsFor (.string s) (.text s)
  | selection {items : List Json} {ids : List String} : List.Forall₂ Gives items ids →
      StandsFor (.array items) (.selection ids)
  | mixed {items : List Json} : ¬ (∀ item ∈ items, item.GivesId) → StandsFor (.array items) .absent
  | period {members : List (String × Json)} {start stop : String} : EndGiven members "start" start →
      EndGiven members "end" stop → StandsFor (.object members) (.period ⟨start, stop⟩)

end Json

namespace Value
open Json

theorem itemId?_eq_some_iff {item : Json} {id : String} : itemId? item = some id ↔ item.Gives id := by
  constructor
  · intro given
    cases item <;> cases given <;> constructor
  · rintro (_ | _) <;> rfl

theorem givesId_iff {item : Json} : item.GivesId ↔ ∃ id, item.Gives id := by
  constructor
  · rintro (⟨s, rfl⟩ | ⟨n, rfl⟩)
    · exact ⟨s, .string s⟩
    · exact ⟨n.text, .number n⟩
  · rintro ⟨_, given⟩
    rcases given with _ | _
    · exact .inl ⟨_, rfl⟩
    · exact .inr ⟨_, rfl⟩

theorem mapM_itemId?_eq_some_iff {items : List Json} {ids : List String} :
    items.mapM itemId? = some ids ↔ List.Forall₂ Gives items ids := by
  induction items generalizing ids with
  | nil => simp [eq_comm]
  | cons item items ih =>
    simp only [List.mapM_cons, Option.bind_eq_bind, Option.bind_eq_some_iff, itemId?_eq_some_iff, ih,
      List.forall₂_cons_left_iff]
    constructor
    · rintro ⟨id, first, rest, others, whole⟩
      exact ⟨id, rest, first, others, (Option.some.inj whole).symm⟩
    · rintro ⟨id, rest, first, others, rfl⟩
      exact ⟨id, first, rest, others, rfl⟩

theorem exists_forall₂_gives_iff {items : List Json} :
    (∃ ids, List.Forall₂ Gives items ids) ↔ ∀ item ∈ items, item.GivesId := by
  induction items with
  | nil => simp
  | cons item items ih =>
    rw [List.forall_mem_cons, ← ih, givesId_iff]
    constructor
    · rintro ⟨_, given⟩
      rcases given with _ | ⟨first, others⟩
      exact ⟨⟨_, first⟩, _, others⟩
    · rintro ⟨⟨id, first⟩, ids, others⟩
      exact ⟨id :: ids, .cons first others⟩

theorem endGiven_periodEnd (members : List (String × Json)) (key : String) :
    EndGiven members key (periodEnd members key) := by
  unfold periodEnd member?
  split
  · rename_i s found
    exact .inl (lookup_reverse_iff.mp found)
  · rename_i other
    exact .inr ⟨rfl, fun t given => other t (lookup_reverse_iff.mpr given)⟩

theorem periodEnd_eq {members : List (String × Json)} {key s : String} (given : EndGiven members key s) :
    periodEnd members key = s := by
  rcases given with last | ⟨rfl, none⟩
  · simp only [periodEnd, member?, lookup_reverse_iff.mpr last]
  · rcases endGiven_periodEnd members key with last | ⟨blank, _⟩
    · exact absurd last (none _)
    · exact blank

theorem standsFor_ofJson (j : Json) : j.StandsFor (ofJson j) := by
  cases j with
  | null => exact .absent
  | bool b => exact .flag b
  | number n => exact .number n
  | string s => exact .text s
  | object members => exact .period (endGiven_periodEnd members "start") (endGiven_periodEnd members "end")
  | array items =>
    rw [ofJson]
    cases found : items.mapM itemId? with
    | some ids => exact .selection (mapM_itemId?_eq_some_iff.mp found)
    | none =>
      refine .mixed fun each => ?_
      obtain ⟨ids, given⟩ := exists_forall₂_gives_iff.mpr each
      rw [mapM_itemId?_eq_some_iff.mpr given] at found
      cases found

theorem ofJson_eq {j : Json} {v : Value} (stands : j.StandsFor v) : ofJson j = v := by
  cases stands with
  | selection given => rw [ofJson, mapM_itemId?_eq_some_iff.mpr given]
  | @mixed items other =>
    rw [ofJson]
    cases found : items.mapM itemId? with
    | none => rfl
    | some ids => exact absurd (exists_forall₂_gives_iff.mp ⟨ids, mapM_itemId?_eq_some_iff.mp found⟩) other
  | period start stop => rw [ofJson, periodEnd_eq start, periodEnd_eq stop]
  | _ => rfl

theorem ofJson_eq_iff {j : Json} {v : Value} : ofJson j = v ↔ j.StandsFor v := by
  constructor
  · rintro rfl
    exact standsFor_ofJson j
  · exact ofJson_eq

theorem decode_eq_ok_iff {text : String} {v : Value} :
    decode text = .ok v ↔ ∃ j, Json.decode (Reader.value room) text = .ok j ∧ j.StandsFor v := by
  simp only [decode, decodeWith_eq_ok_iff, Json.decode_eq_ok_iff, reader, Reader.reads_map, ofJson_eq_iff]
  grind

inductive Restrung : List Char → List Char → Prop where
  | same {j : Json} {t u : List Char} : j.TextOf t → j.TextOf u → Restrung t u
  | digits {n : Int} {u : List Char} : -2 ^ 63 ≤ n → n < 2 ^ 64 → StringText u n.repr → Restrung n.repr.toList u

-- The same of a value, which is written so as a whole or item by item.
inductive RestrungWithin : List Char → List Char → Prop where
  | whole {t u : List Char} : Restrung t u → RestrungWithin t u
  | items {es ds : List (List Char)} {t u : List Char} : ArrayText es t → ArrayText ds u →
      List.Forall₂ Restrung es ds → RestrungWithin t u

theorem textOf_digits {n : Int} (least : -2 ^ 63 ≤ n) (most : n < 2 ^ 64) :
    (Json.number (.integer n)).TextOf n.repr.toList :=
  .number (numeralText_ofInt n) (number?_ofInt least most)

theorem Restrung.trees {t u : List Char} (restrung : Restrung t u) :
    ∃ j k, j.TextOf t ∧ k.TextOf u ∧ j.depth = k.depth ∧ ofJson j = ofJson k ∧ itemId? j = itemId? k := by
  cases restrung with
  | @same j _ _ text textToo => exact ⟨j, j, text, textToo, rfl, rfl, rfl⟩
  | @digits n _ least most spelled => exact ⟨_, _, textOf_digits least most, .string spelled, rfl, rfl, rfl⟩

theorem restrung_items {es ds : List (List Char)} (restrung : List.Forall₂ Restrung es ds) :
    ∃ ps qs : List (Json × List Char), es = ps.map Prod.snd ∧ ds = qs.map Prod.snd ∧
      (∀ p ∈ ps, p.1.TextOf p.2) ∧ (∀ q ∈ qs, q.1.TextOf q.2) ∧
      depthItems (ps.map Prod.fst) = depthItems (qs.map Prod.fst) ∧
      (ps.map Prod.fst).mapM itemId? = (qs.map Prod.fst).mapM itemId? := by
  induction restrung with
  | nil => exact ⟨[], [], rfl, rfl, by simp, by simp, rfl, rfl⟩
  | @cons e d es ds first _ ih =>
    obtain ⟨j, k, text, textToo, deep, _, id⟩ := first.trees
    obtain ⟨ps, qs, rfl, rfl, texts, textsToo, levels, ids⟩ := ih
    refine ⟨(j, e) :: ps, (k, d) :: qs, rfl, rfl, List.forall_mem_cons.mpr ⟨text, texts⟩,
      List.forall_mem_cons.mpr ⟨textToo, textsToo⟩, ?_, ?_⟩
    · simp only [List.map_cons, depthItems, deep, levels]
    · simp only [List.map_cons, List.mapM_cons, id, ids]

theorem RestrungWithin.trees {t u : List Char} (restrung : RestrungWithin t u) :
    ∃ j k, j.TextOf t ∧ k.TextOf u ∧ j.depth = k.depth ∧ ofJson j = ofJson k := by
  cases restrung with
  | whole restrung =>
    obtain ⟨j, k, text, textToo, deep, same, _⟩ := restrung.trees
    exact ⟨j, k, text, textToo, deep, same⟩
  | items written writtenToo restrung =>
    obtain ⟨ps, qs, rfl, rfl, texts, textsToo, levels, ids⟩ := restrung_items restrung
    refine ⟨_, _, .array written texts, .array writtenToo textsToo, ?_, ?_⟩
    · rw [depth, depth, levels]
    · rw [ofJson, ofJson, ids]

theorem decode_restrung {t u g g' h h' : List Char} (restrung : RestrungWithin t u) (gap : Gap g) (gap' : Gap g')
    (other : Gap h) (other' : Gap h') {v : Value} :
    decode (.ofList (g ++ (t ++ g'))) = .ok v ↔ decode (.ofList (h ++ (u ++ h'))) = .ok v := by
  obtain ⟨j, k, text, textToo, deep, same⟩ := restrung.trees
  simp only [decode_eq_ok_iff, decode_textOf_iff text gap gap', decode_textOf_iff textToo other other', ← ofJson_eq_iff]
  grind

theorem decode_loosely {text : String} {j : Json} (read : Json.decode (Reader.value room) text = .ok j) :
    (∃ v, decode text = .ok v) ∧
    (∀ v, decode text = .ok v ↔ j.StandsFor v) ∧
    (∀ items, j = .array items →
      ((∃ ids, decode text = .ok (.selection ids)) ↔ ∀ item ∈ items, item.GivesId) ∧
      (decode text = .ok .absent ↔ ¬ ∀ item ∈ items, item.GivesId)) ∧
    (∀ members, j = .object members →
      ∃ p, decode text = .ok (.period p) ∧ EndGiven members "start" p.start ∧ EndGiven members "end" p.stop) ∧
    ∀ g t g' h u h', Gap g → Gap g' → Gap h → Gap h' → text = .ofList (g ++ (t ++ g')) → RestrungWithin t u →
      ∃ v w, decode text = .ok v ∧ decode (.ofList (h ++ (u ++ h'))) = .ok w ∧ v = w ∧
        ∀ catalog before after combinator (c : Condition),
          Params.compile catalog (before ++ { c with value := v } :: after) combinator =
            Params.compile catalog (before ++ { c with value := w } :: after) combinator ∧
          Query.compile catalog (before ++ { c with value := v } :: after) combinator =
            Query.compile catalog (before ++ { c with value := w } :: after) combinator := by
  have stands : ∀ v, decode text = .ok v ↔ j.StandsFor v := by
    intro v
    rw [decode_eq_ok_iff]
    constructor
    · rintro ⟨k, readToo, stands⟩
      rw [read] at readToo
      cases readToo
      exact stands
    · exact fun stands => ⟨j, read, stands⟩
  have total : decode text = .ok (ofJson j) := (stands _).mpr (standsFor_ofJson j)
  refine ⟨⟨_, total⟩, stands, ?_, ?_, ?_⟩
  · rintro items rfl
    constructor
    · rw [← exists_forall₂_gives_iff]
      refine exists_congr fun ids => (stands _).trans ⟨fun given => ?_, .selection⟩
      cases given
      assumption
    · refine (stands _).trans ⟨fun given => ?_, .mixed⟩
      cases given
      assumption
  · rintro members rfl
    exact ⟨_, total, endGiven_periodEnd members "start", endGiven_periodEnd members "end"⟩
  · rintro g t g' h u h' gap gap' other other' rfl restrung
    exact ⟨_, _, total, (decode_restrung restrung gap gap' other other').mp total, rfl, fun _ _ _ _ _ => ⟨rfl, rfl⟩⟩

-- The least and the greatest integer that are read as integers, with a string between them.

def extremes : List Json :=
  [.number (.integer (-9223372036854775808)), .string "a", .number (.integer 18446744073709551615)]

def extremesAsStrings : List Json := [.string "-9223372036854775808", .string "a", .string "18446744073709551615"]

theorem decode_loosely_extremes :
    Json.decode (Reader.value room) (Json.array extremes).render = .ok (.array extremes) ∧
    decode (Json.array extremes).render = .ok (.selection ["-9223372036854775808", "a", "18446744073709551615"]) ∧
    decode (Json.array extremesAsStrings).render =
      .ok (.selection ["-9223372036854775808", "a", "18446744073709551615"]) := by
  have least : (Json.number (.integer (-9223372036854775808))).TextOf _ := textOf_digits (by decide) (by decide)
  have greatest : (Json.number (.integer 18446744073709551615)).TextOf _ := textOf_digits (by decide) (by decide)
  have letter : (Json.string "a").TextOf _ := .string (stringText_writeString "a")
  have each : ∀ p ∈ extremes.map fun v => (v, v.chars), p.1.TextOf p.2 := by
    simpa [extremes] using ⟨least, letter, greatest⟩
  have written : (Json.array extremes).TextOf (Json.array extremes).chars := by
    have items : ArrayText ((extremes.map fun v => (v, v.chars)).map Prod.snd) (Json.array extremes).chars :=
      arrayText_chars extremes
    exact .array items each
  have read : Json.decode (Reader.value room) (Json.array extremes).render = .ok (.array extremes) :=
    decode_value_iff.mpr ⟨by decide, [], _, [], gap_nil, gap_nil, written, by simp [render]⟩
  obtain ⟨_, stands, _, _, restrung⟩ := decode_loosely read
  have value : decode (Json.array extremes).render =
      .ok (.selection ["-9223372036854775808", "a", "18446744073709551615"]) :=
    (stands _).mpr (.selection (.cons (.number _) (.cons (.string _) (.cons (.number _) .nil))))
  obtain ⟨v, w, first, second, rfl, _⟩ := restrung [] _ [] [] _ [] gap_nil gap_nil gap_nil gap_nil (by simp [render])
    (.items (arrayText_chars extremes) (arrayText_chars extremesAsStrings)
      (.cons (.digits (by decide) (by decide) (stringText_writeString _))
        (.cons (.same letter letter) (.cons (.digits (by decide) (by decide) (stringText_writeString _)) .nil))))
  refine ⟨read, value, ?_⟩
  rw [← value, first, ← second]
  simp [render]

end Value
end Criteria
