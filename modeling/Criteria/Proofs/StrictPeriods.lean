import Criteria.Proofs.LooseValues
import Criteria.Proofs.Respelling

namespace Criteria
open Json

namespace Json
open Reader
variable {σ τ : Type}

section SideBySide
variable {s r : List Char}

theorem keyAt_unique {first : Bool} {name other : String} {u : List Char} (key : KeyAt first s name r)
    (keyToo : KeyAt first s other u) : name = other ∧ r = u := by
  cases first with
  | true => exact Reads.unique key keyToo
  | false =>
    obtain ⟨v, comma, key⟩ := key
    obtain ⟨w, commaToo, keyToo⟩ := keyToo
    rw [comma] at commaToo
    cases commaToo
    exact key.unique keyToo

theorem not_keyAt_brace {first : Bool} {name : String} {u : List Char} : ¬ KeyAt first ('}' :: r) name u := by
  cases first with
  | true =>
    intro key
    obtain ⟨_, quote⟩ := head_of_reads_string key
    cases quote
  | false =>
    rintro ⟨_, comma, _⟩
    cases comma

theorem itemAt_unique {first : Bool} {u : List Char} (item : ItemAt first s r) (itemToo : ItemAt first s u) : r = u := by
  obtain ⟨_, _, here⟩ := item
  obtain ⟨_, _, hereToo⟩ := itemToo
  cases first with
  | true => exact here.symm.trans hereToo
  | false =>
    obtain ⟨v, rfl, rfl⟩ := here
    obtain ⟨w, comma, rfl⟩ := hereToo
    cases comma
    rfl

theorem not_itemAt_bracket {first : Bool} {u : List Char} : ¬ ItemAt first (']' :: r) u := by
  rintro ⟨_, bracket, here⟩
  cases first with
  | true =>
    rw [if_pos rfl] at here
    exact bracket (by rw [← here]; rfl)
  | false =>
    obtain ⟨_, comma, _⟩ := here
    cases comma

theorem ends_of_skipSpace {c : Char} (next : skipSpace s = c :: r) (ends : Ends (c :: r)) : Ends s := by
  obtain ⟨g, gap, whole⟩ := skipSpace_parts s
  rw [whole, next]
  exact gap.ends_append ends

theorem MembersRead.ends {step : σ → String → Except Fault (Reader σ)} {state final : σ}
    (read : MembersRead step false state s final r) : Ends s := by
  cases read with
  | stop closed => exact ends_of_skipSpace closed (ends_brace r)
  | next key =>
    obtain ⟨v, comma, _⟩ := key
    exact ends_of_skipSpace comma (ends_cons (by decide) v)

-- Two readings of the same members: what relates their states is kept from the first member to the last, if it is kept
-- over each of them, and if both take the same text for it.
theorem members_together {step : σ → String → Except Fault (Reader σ)} {stepToo : τ → String → Except Fault (Reader τ)}
    (related : σ → τ → Prop)
    (kept : ∀ {a b a' b' name p q s r u}, related a b → step a name = .ok p → stepToo b name = .ok q →
      Reads p s a' r → Reads q s b' u → Ends u → r = u ∧ related a' b')
    {first : Bool} {a a' : σ} {b b' : τ} {u : List Char} (read : MembersRead step first a s a' r)
    (readToo : MembersRead stepToo first b s b' u) (start : related a b) : related a' b' := by
  induction read generalizing b with
  | stop closed =>
    cases readToo with
    | stop => exact start
    | next key =>
      rw [closed] at key
      exact absurd key not_keyAt_brace
  | next key known colon value _ ih =>
    cases readToo with
    | stop closed =>
      rw [closed] at key
      exact absurd key not_keyAt_brace
    | next keyToo knownToo colonToo valueToo rest =>
      obtain ⟨rfl, rfl⟩ := keyAt_unique key keyToo
      rw [colon] at colonToo
      cases colonToo
      obtain ⟨rfl, next⟩ := kept start known knownToo value valueToo rest.ends
      exact ih rest next

theorem reads_value_of_text {x : String} (read : Reads Reader.text s x r) (levels : Nat) :
    Reads (value levels) s (.string x) r := by
  obtain ⟨c, t, skipped, taken⟩ := reads_choose.mp read
  obtain ⟨g, gap, whole⟩ := skipSpace_parts s
  rw [whole, skipped]
  apply gap.reads_value
  split at taken
  · rename_i quote
    subst quote
    exact reads_scalar_of (by decide) (by decide) (reads_map.mpr ⟨x, taken, rfl⟩)
  · exact absurd taken reads_mismatch

theorem positions_together {l : Layout σ} {slot : Slot σ} {slots : List (Slot σ)} {room levels index : Nat}
    {put : String → σ → σ} {state final : σ} {js : List Json} {u : List Char}
    (texts : slot.read room = Reader.text.map put) (strict : Reads (l.positions room (slot :: slots) index state) s final r)
    (loose : Reads (items (value levels) (index == 0)) s js u) :
    (js = [] ∧ final = state) ∨ ∃ x rest t, js = .string x :: rest ∧
      Reads (l.positions room slots (index + 1) (put x state)) t final r ∧ Reads (items (value levels) false) t rest u := by
  rcases Layout.reads_positions_cons.mp strict with ⟨_, rfl, closed⟩ | ⟨w, change, v, here, taken, others⟩
  · rcases reads_items.mp loose with ⟨rfl, _⟩ | ⟨w, _, _, _, here, _⟩
    · exact .inl ⟨rfl, rfl⟩
    · rw [closed] at here
      exact absurd here not_itemAt_bracket
  · rcases reads_items.mp loose with ⟨_, closed⟩ | ⟨w', j, v', rest, hereToo, takenToo, othersToo, rfl⟩
    · rw [closed] at here
      exact absurd here not_itemAt_bracket
    · obtain rfl := itemAt_unique here hereToo
      rw [texts] at taken
      obtain ⟨x, string, rfl⟩ := reads_map.mp taken
      obtain ⟨rfl, rfl⟩ := (reads_value_of_text string levels).unique takenToo
      exact .inr ⟨x, rest, v, rfl, others, othersToo⟩

theorem positions_together_end {l : Layout σ} {room levels index : Nat} {state final : σ} {js : List Json}
    {u : List Char} (strict : Reads (l.positions room [] index state) s final r)
    (loose : Reads (items (value levels) false) s js u) : js = [] ∧ final = state := by
  obtain ⟨rfl, closed⟩ := Layout.reads_positions_nil.mp strict
  rcases reads_items.mp loose with ⟨rfl, _⟩ | ⟨_, _, _, _, here, _⟩
  · exact ⟨rfl, rfl⟩
  · rw [closed] at here
    exact absurd here not_itemAt_bracket

end SideBySide
end Json

namespace Period
open Reader
variable {s r u : List Char} {p : Period}

-- The ends that members give which are listed from the last to the first.
def endsOf (before : List (String × Json)) : Period :=
  ⟨Value.periodEnd before.reverse "start", Value.periodEnd before.reverse "end"⟩

theorem periodEnd_reverse_cons (before : List (String × Json)) (name key : String) (j : Json) :
    Value.periodEnd ((name, j) :: before).reverse key =
      if key = name then (match j with | .string x => x | _ => "") else Value.periodEnd before.reverse key := by
  unfold Value.periodEnd Json.member?
  rw [List.reverse_reverse, List.reverse_reverse, List.lookup_cons]
  by_cases same : key = name
  · subst same
    simp only [beq_self_eq_true, if_true]
    cases j <;> rfl
  · simp only [beq_false_of_ne same, same, if_false]

theorem endsOf_start (before : List (String × Json)) (x : String) :
    endsOf (("start", .string x) :: before) = { endsOf before with start := x } := by
  simp [endsOf, periodEnd_reverse_cons, -List.reverse_cons]

theorem endsOf_stop (before : List (String × Json)) (x : String) :
    endsOf (("end", .string x) :: before) = { endsOf before with stop := x } := by
  simp [endsOf, periodEnd_reverse_cons, -List.reverse_cons]

theorem endsOf_other (before : List (String × Json)) {name : String} (j : Json) (other : "start" ≠ name ∧ "end" ≠ name) :
    endsOf ((name, j) :: before) = endsOf before := by
  simp only [endsOf, periodEnd_reverse_cons, other.1, other.2, if_false]

theorem member_together {room levels : Nat} {state next : Period × List String} {before after : List (String × Json)}
    {name : String} {reader : Reader (Period × List String)} {readerToo : Reader (List (String × Json))}
    (agree : state.1 = endsOf before) (known : layout.member room state name = .ok reader)
    (knownToo : memberStep (value levels) before name = .ok readerToo) (read : Reads reader s next r)
    (readToo : Reads readerToo s after u) (ends : Ends u) : r = u ∧ next.1 = endsOf after := by
  cases knownToo
  obtain ⟨j, value, rfl⟩ := reads_map.mp readToo
  unfold Layout.member at known
  split at known
  · rename_i unknown
    cases known
    -- One of the two passes the member over, the other keeps it under a name that gives no end.
    obtain ⟨_, passed, rfl⟩ := reads_map.mp read
    obtain ⟨_, rfl⟩ := passed.unique (reads_passValue_of_value value ends)
    have other : "start" ≠ name ∧ "end" ≠ name := by simpa [layout] using unknown
    exact ⟨rfl, by rw [agree, endsOf_other before j other]⟩
  · rename_i slot found
    split at known
    · cases known
    cases known
    obtain ⟨change, taken, rfl⟩ := reads_map.mp read
    have named : slot.name = name := by simpa using List.find?_some found
    have listed := List.mem_of_find?_eq_some found
    simp only [layout, List.mem_cons, List.not_mem_nil, or_false] at listed
    rcases listed with rfl | rfl
    · obtain ⟨x, string, rfl⟩ := reads_map.mp taken
      obtain ⟨rfl, rfl⟩ := (reads_value_of_text string levels).unique value
      cases named
      exact ⟨rfl, by rw [endsOf_start, agree]⟩
    · obtain ⟨x, string, rfl⟩ := reads_map.mp taken
      obtain ⟨rfl, rfl⟩ := (reads_value_of_text string levels).unique value
      cases named
      exact ⟨rfl, by rw [endsOf_stop, agree]⟩

theorem object_together {room levels : Nat} {members : List (String × Json)} (strict : Reads (layout.asObject room) s p r)
    (loose : Reads (object (memberStep (value levels)) []) s members u) : p = endsOf members := by
  obtain ⟨state, read, done⟩ := reads_check.mp strict
  obtain ⟨t, rfl, inside⟩ := reads_object.mp read
  obtain ⟨_, whole, insideToo⟩ := reads_object.mp loose
  cases whole
  rw [Layout.finish_eq_ok_inv done]
  exact members_together (fun state before => state.1 = endsOf before) member_together (membersRead_of_reads inside)
    (membersRead_of_reads insideToo) rfl

theorem array_together {room levels : Nat} {items : List Json} (strict : Reads (layout.asArray room) s p r)
    (loose : Reads (array (value levels)) s items u) :
    ∃ ids : List String, ids.length ≤ 2 ∧ items = ids.map .string ∧ p = ⟨ids.getD 0 "", ids.getD 1 ""⟩ := by
  obtain ⟨_, t, open₁, inside⟩ := reads_andThen.mp strict
  obtain ⟨w, open₂, insideToo⟩ := reads_array.mp loose
  obtain rfl := reads_char.mp open₁
  cases open₂
  rcases positions_together rfl inside insideToo with ⟨rfl, rfl⟩ | ⟨x, rest, m, rfl, second, secondToo⟩
  · exact ⟨[], by simp, rfl, rfl⟩
  rcases positions_together rfl second secondToo with ⟨rfl, rfl⟩ | ⟨y, rest, n, rfl, third, thirdToo⟩
  · exact ⟨[x], by simp, rfl, rfl⟩
  · obtain ⟨rfl, rfl⟩ := positions_together_end third thirdToo
    exact ⟨[x, y], by simp, rfl, rfl⟩

theorem reads_together {room levels : Nat} {j : Json} (strict : Reads (layout.read room) s p r)
    (loose : Reads (value (levels + 1)) s j u) :
    (∃ members, j = .object members ∧ Value.ofJson j = .period p) ∨
      ∃ ids : List String, ids.length ≤ 2 ∧ j = .array (ids.map .string) ∧ p = ⟨ids.getD 0 "", ids.getD 1 ""⟩ := by
  obtain ⟨c, t, skipped, taken⟩ := reads_choose.mp strict
  rw [value] at loose
  obtain ⟨d, w, skippedToo, takenToo⟩ := reads_choose.mp loose
  rw [skipped] at skippedToo
  cases skippedToo
  split at taken
  · rename_i bracket
    rw [if_pos bracket] at takenToo
    obtain ⟨items, list, rfl⟩ := reads_map.mp takenToo
    cases room with
    | zero => exact absurd taken reads_fail
    | succ room =>
      obtain ⟨ids, few, rfl, ends⟩ := array_together taken list
      exact .inr ⟨ids, few, rfl, ends⟩
  · rename_i bracket
    split at taken
    · rename_i brace
      rw [if_neg bracket, if_pos brace] at takenToo
      obtain ⟨members, list, rfl⟩ := reads_map.mp takenToo
      cases room with
      | zero => exact absurd taken reads_fail
      | succ room =>
        rw [object_together taken list]
        exact .inl ⟨_, rfl, rfl⟩
    · exact absurd taken reads_mismatch

inductive LooseOf (p : Period) : Value → Prop where
  | period : LooseOf p (.period p)
  | selection {ids : List String} : ids.length ≤ 2 → p = ⟨ids.getD 0 "", ids.getD 1 ""⟩ → LooseOf p (.selection ids)

theorem LooseOf.ofValue_eq {v : Value} (loose : LooseOf p v) :
    Demand.ofValue .date .between v = Demand.ofPeriod p.start p.stop := by
  cases loose with
  | period => rfl
  | @selection ids few ends =>
    subst ends
    rcases ids with _ | ⟨x, _ | ⟨y, _ | ⟨z, ids⟩⟩⟩
    · rfl
    · simp [Demand.ofValue, Demand.ofPeriod]
    · rfl
    · simp at few

theorem LooseOf.complete_eq {v : Value} (loose : LooseOf p v) {catalog : Catalog} {f : Field}
    (listed : f ∈ catalog.fields) (dates : f.kind = .date) (id : String) :
    (⟨id, some f.id, some .between, v⟩ : Condition).complete catalog =
      (⟨id, some f.id, some .between, .period p⟩ : Condition).complete catalog := by
  apply Condition.complete_congr (c := ⟨id, some f.id, some .between, .absent⟩) listed rfl
  intro o chosen
  cases chosen
  rw [dates, loose.ofValue_eq]
  rfl

theorem complete_period {catalog : Catalog} {f : Field} (listed : f ∈ catalog.fields) (dates : f.kind = .date)
    (offered : f.accepts .between = true) (id : String) (p : Period) :
    (⟨id, some f.id, some .between, .period p⟩ : Condition).complete catalog =
      if p.start = "" ∨ p.stop = "" then .error .emptyValue else .ok ⟨id, f.id, .between p.start p.stop⟩ := by
  have found : catalog.find? f.id = some f := Catalog.find?_eq_some_iff.mpr ⟨listed, rfl⟩
  simp only [Condition.complete, found, offered, if_true, dates, Demand.ofValue, Demand.ofPeriod]
  split <;> rfl

theorem decode_alike {text : String} {v : Value} (strict : decode text = .ok p) (loose : Value.decode text = .ok v) :
    ((∃ members, Json.decode (Reader.value Json.room) text = .ok (.object members) ∧ v = .period p) ∨
      ∃ ids : List String, ids.length ≤ 2 ∧ Json.decode (Reader.value Json.room) text = .ok (.array (ids.map .string)) ∧
        v = .selection ids ∧ p = ⟨ids.getD 0 "", ids.getD 1 ""⟩) ∧
    ∀ (catalog : Catalog) (f : Field) (id : String), f ∈ catalog.fields → f.kind = .date → f.accepts .between = true →
      (⟨id, some f.id, some .between, v⟩ : Condition).complete catalog =
        (⟨id, some f.id, some .between, .period p⟩ : Condition).complete catalog ∧
      (⟨id, some f.id, some .between, v⟩ : Condition).complete catalog =
        if p.start = "" ∨ p.stop = "" then .error .emptyValue else .ok ⟨id, f.id, .between p.start p.stop⟩ := by
  obtain ⟨_, read, _⟩ := decode_eq_ok_iff.mp (decodeWith_eq_ok_iff.mp strict)
  obtain ⟨j, tree, stands⟩ := Value.decode_eq_ok_iff.mp loose
  obtain ⟨_, readToo, _⟩ := decode_eq_ok_iff.mp tree
  change Reads (Reader.value (126 + 1)) _ _ _ at readToo
  have value : Value.ofJson j = v := Value.ofJson_eq_iff.mpr stands
  have parts := reads_together read readToo
  have looseOf : LooseOf p v := by
    rcases parts with ⟨_, _, same⟩ | ⟨ids, few, rfl, ends⟩
    · rw [← value, same]
      exact .period
    · rw [← value, Value.ofJson, Value.mapM_itemId?_string]
      exact .selection few ends
  constructor
  · rcases parts with ⟨members, rfl, same⟩ | ⟨ids, few, rfl, ends⟩
    · exact .inl ⟨members, tree, value.symm.trans same⟩
    · refine .inr ⟨ids, few, tree, ?_, ends⟩
      rw [← value, Value.ofJson, Value.mapM_itemId?_string]
  · intro catalog f id listed dates offered
    have same := looseOf.complete_eq listed dates id
    exact ⟨same, same.trans (complete_period listed dates offered id p)⟩

-- A period with its ends the other way round, and one that breaks off.
theorem decode_alike_february :
    let february : Period := ⟨"2024-02-01", "2024-02-29"⟩
    let begun : Period := ⟨"2024-02-01", ""⟩
    let object := "\x7b \"end\": \"2024-02-29\", \"start\": \"2024-02-01\" \x7d"
    let array := "[\"2024-02-01\"]"
    decode object = .ok february ∧ Value.decode object = .ok (.period february) ∧
    decode array = .ok begun ∧ Value.decode array = .ok (.selection ["2024-02-01"]) ∧
    (⟨"c", some "created_at", some .between, .period february⟩ : Condition).complete .builtIn =
      .ok ⟨"c", "created_at", .between "2024-02-01" "2024-02-29"⟩ ∧
    (⟨"c", some "created_at", some .between, .selection ["2024-02-01"]⟩ : Condition).complete .builtIn =
      .error .emptyValue := by
  intro february begun object array
  have created : (⟨"created_at", "Created at", .date, [.equals, .between]⟩ : Field) ∈ Catalog.builtIn.fields := by decide
  have whole : decode object = .ok february := by decide +kernel
  have wholeToo : Value.decode object = .ok (.period february) := by decide +kernel
  have broken : decode array = .ok begun := by decide +kernel
  have brokenToo : Value.decode array = .ok (.selection ["2024-02-01"]) := by decide +kernel
  refine ⟨whole, wholeToo, broken, brokenToo, ?_, ?_⟩
  · exact ((decode_alike whole wholeToo).2 _ _ "c" created rfl rfl).2
  · exact ((decode_alike broken brokenToo).2 _ _ "c" created rfl rfl).2

end Period
end Criteria
