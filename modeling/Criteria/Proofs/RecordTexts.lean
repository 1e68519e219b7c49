import Criteria.Json.Record
import Criteria.Proofs.PassedTexts
import Mathlib.Data.List.Nodup

namespace Criteria.Json
open Reader
variable {σ : Type}

def ObjectText (ms : List (String × List Char)) (t : List Char) : Prop :=
  ∃ es u, t = '{' :: u ∧ Enclosed '}' es u ∧
    List.Forall₂ (fun m e => ∃ key, StringText key m.1 ∧ MemberText key m.2 e) ms es

def ArrayText (es : List (List Char)) (t : List Char) : Prop := ∃ u, t = '[' :: u ∧ Enclosed ']' es u

theorem objectText_chars (ms : List (String × Json)) :
    ObjectText (ms.map fun m => (m.1, m.2.chars)) (Json.object ms).chars := by
  refine ⟨_, _, by rw [chars], enclosed_memberChars ms, ?_⟩
  rw [List.forall₂_map_left_iff, List.forall₂_map_right_iff, List.forall₂_same]
  exact fun m _ => ⟨_, stringText_writeString m.1, memberText_writeMember m⟩

theorem arrayText_chars (vs : List Json) : ArrayText (vs.map chars) (Json.array vs).chars :=
  ⟨_, by rw [chars], enclosed_itemChars vs⟩

section Members
variable {step : σ → String → Except Fault (Reader σ)}

inductive Gathers (step : σ → String → Except Fault (Reader σ)) : σ → List (String × List Char) → σ → Prop where
  | nil {state : σ} : Gathers step state [] state
  | cons {state next final : σ} {name : String} {v : List Char} {ms : List (String × List Char)}
      {reader : Reader σ} : step state name = .ok reader → Takes reader v next → Gathers step next ms final →
      Gathers step state ((name, v) :: ms) final

theorem StringText.begins_value {key : List Char} {name : String} (spelled : StringText key name) : Begins key := by
  obtain ⟨b, rfl⟩ := spelled.begins
  exact ⟨'"', b, rfl, by decide, by decide⟩

theorem keyAt_first {g key : List Char} {name : String} (gap : Gap g) (spelled : StringText key name)
    (u : List Char) : KeyAt true (skipSpace (g ++ (key ++ u))) name u := by
  rw [gap.skipSpace_append, spelled.begins_value.skipSpace_append]
  exact spelled.reads u

theorem keyAt_next {g g' key : List Char} {name : String} (gap : Gap g) (gap' : Gap g')
    (spelled : StringText key name) (u : List Char) :
    KeyAt false (skipSpace (g ++ ',' :: (g' ++ (key ++ u)))) name u := by
  rw [gap.skipSpace_cons (by decide)]
  exact ⟨_, rfl, keyAt_first gap' spelled u⟩

theorem reads_member {first : Bool} {state next final : σ} {name : String} {g g' v s m r : List Char}
    {reader : Reader σ} (key : KeyAt first (skipSpace s) name (g ++ ':' :: (g' ++ (v ++ m)))) (gap : Gap g)
    (gap' : Gap g') (known : step state name = .ok reader) (takes : Takes reader v next) (ends : Ends m)
    (rest : Reads (members step false next) m final r) : Reads (members step first state) s final r :=
  reads_members.mpr (.inr ⟨name, _, reader, _, next, m, key, known, gap.skipSpace_cons (by decide) _,
    takes.reads g' m gap' ends, rest⟩)

theorem reads_members_followed {state final : σ} {ms : List (String × List Char)} {es : List (List Char)}
    {t : List Char} (followed : Followed '}' es t)
    (written : List.Forall₂ (fun m e => ∃ key, StringText key m.1 ∧ MemberText key m.2 e) ms es)
    (gathers : Gathers step state ms final) (r : List Char) :
    Reads (members step false state) (t ++ r) final r := by
  induction followed generalizing state ms with
  | stop gap =>
    cases written
    cases gathers
    rw [List.append_assoc]
    exact reads_members.mpr (.inl ⟨rfl, gap.skipSpace_cons (by decide) r⟩)
  | more gap gap' followed ih =>
    obtain _ | ⟨⟨key, spelled, h, h', inner, inner', rfl⟩, written⟩ := written
    obtain _ | ⟨known, takes, gathers⟩ := gathers
    simp only [List.append_assoc, List.cons_append]
    exact reads_member (keyAt_next gap gap' spelled _) inner inner' known takes (followed.ends ends_brace r)
      (ih written gathers)

theorem reads_gathered {start final : σ} {ms : List (String × List Char)} {t : List Char}
    (written : ObjectText ms t) (gathers : Gathers step start ms final) (r : List Char) :
    Reads (Reader.object step start) (t ++ r) final r := by
  obtain ⟨es, u, rfl, enclosed, written⟩ := written
  refine reads_object.mpr ⟨u ++ r, rfl, ?_⟩
  cases enclosed with
  | empty gap =>
    cases written
    cases gathers
    rw [List.append_assoc]
    exact reads_members.mpr (.inl ⟨rfl, gap.skipSpace_cons (by decide) r⟩)
  | some gap followed =>
    obtain _ | ⟨⟨key, spelled, h, h', inner, inner', rfl⟩, written⟩ := written
    obtain _ | ⟨known, takes, gathers⟩ := gathers
    simp only [List.append_assoc, List.cons_append]
    exact reads_member (keyAt_first gap spelled _) inner inner' known takes (followed.ends ends_brace r)
      (reads_members_followed followed written gathers r)

end Members

namespace Layout

-- A slot reads `v` as its part of the record that `part` builds up.
def Gives (part : List String → σ) (room : Nat) (slot : Slot σ) (v : List Char) : Prop :=
  ∃ change, Takes (slot.read room) v change ∧ ∀ names, change (part names) = part (slot.name :: names)

def named (l : Layout σ) (ms : List (String × List Char)) : List String :=
  ((ms.map Prod.fst).filter fun name => l.slots.any (·.name == name)).reverse

theorem named_cons (l : Layout σ) (m : String × List Char) (ms : List (String × List Char)) :
    l.named (m :: ms) = if l.slots.any (·.name == m.1) then l.named ms ++ [m.1] else l.named ms := by
  unfold named
  rw [List.map_cons, List.filter_cons]
  split <;> simp

theorem gathers_member {l : Layout σ} {part : List String → σ} {room : Nat} {ms : List (String × List Char)}
    (names : List String)
    (given : ∀ m ∈ ms, ∀ slot ∈ l.slots, slot.name = m.1 → Gives part room slot m.2)
    (others : ∀ m ∈ ms, (∀ slot ∈ l.slots, slot.name ≠ m.1) → ValueText m.2)
    (once : (l.named ms ++ names).Nodup) :
    Gathers (l.member room) (part names, names) ms (part (l.named ms ++ names), l.named ms ++ names) := by
  induction ms generalizing names with
  | nil => exact .nil
  | cons m ms ih =>
    have givenLater := fun n member => given n (List.mem_cons_of_mem m member)
    have othersLater := fun n member => others n (List.mem_cons_of_mem m member)
    rw [named_cons] at once ⊢
    cases found : l.slots.find? (·.name == m.1) with
    | none =>
      have unknown : ∀ slot ∈ l.slots, slot.name ≠ m.1 := by simpa using found
      have absent : l.slots.any (·.name == m.1) = false := by simpa using unknown
      simp only [absent, Bool.false_eq_true, if_false] at once ⊢
      have passed : l.member room (part names, names) m.1 = .ok (map (fun _ => (part names, names)) passValue) := by
        simp [member, found]
      refine .cons passed ?_ (ih _ givenLater othersLater once)
      exact (takes_passValue (others m (by simp) unknown)).map _
    | some slot =>
      have listed : slot ∈ l.slots := List.mem_of_find?_eq_some found
      have named : slot.name = m.1 := by simpa using List.find?_some found
      have present : l.slots.any (·.name == m.1) = true := by simpa using ⟨slot, listed, named⟩
      simp only [present, if_true, List.append_assoc, List.singleton_append] at once ⊢
      have fresh : m.1 ∉ names := (List.nodup_cons.mp (List.nodup_append.mp once).2.1).1
      obtain ⟨change, takes, fits⟩ := given m (by simp) slot listed named
      have known : l.member room (part names, names) m.1 =
          .ok ((slot.read room).map fun change => (change (part names), m.1 :: names)) := by
        simp [member, found, fresh]
      refine .cons known ?_ (ih _ givenLater othersLater once)
      rw [← named, ← fits names]
      exact takes.map _

theorem mem_named_iff {l : Layout σ} {slot : Slot σ} (listed : slot ∈ l.slots) (ms : List (String × List Char)) :
    slot.name ∈ l.named ms ↔ slot.name ∈ ms.map Prod.fst := by
  have present : l.slots.any (·.name == slot.name) = true := by simpa using ⟨slot, listed, rfl⟩
  rw [named, List.mem_reverse, List.mem_filter, present]
  simp

theorem nodup_named {l : Layout σ} {ms : List (String × List Char)}
    (once : ∀ slot ∈ l.slots, (ms.map Prod.fst).count slot.name ≤ 1) : (l.named ms).Nodup := by
  rw [named, List.nodup_reverse, List.nodup_iff_count_le_one]
  intro name
  by_cases known : l.slots.any (·.name == name) = true
  · obtain ⟨slot, listed, same⟩ := List.any_eq_true.mp known
    obtain rfl : slot.name = name := by simpa using same
    exact Nat.le_trans (List.filter_sublist.count_le _) (once slot listed)
  · rw [List.count_eq_zero.mpr]
    · exact Nat.zero_le 1
    · intro member
      exact known (List.mem_filter.mp member).2

theorem finish_eq_ok {l : Layout σ} {state : σ} {names : List String}
    (there : ∀ slot ∈ l.slots, slot.required = true → slot.name ∈ names) : l.finish (state, names) = .ok state := by
  have nothing : (l.slots.find? fun slot => slot.required && !names.contains slot.name) = none := by
    simpa using there
  simp only [finish, nothing]

theorem takes_object {l : Layout σ} {part : List String → σ} {levels : Nat} {ms : List (String × List Char)}
    {t : List Char} (start : part [] = l.start) (written : ObjectText ms t)
    (given : ∀ m ∈ ms, ∀ slot ∈ l.slots, slot.name = m.1 → Gives part levels slot m.2)
    (others : ∀ m ∈ ms, (∀ slot ∈ l.slots, slot.name ≠ m.1) → ValueText m.2)
    (once : ∀ slot ∈ l.slots, (ms.map Prod.fst).count slot.name ≤ 1)
    (there : ∀ slot ∈ l.slots, slot.required = true → slot.name ∈ ms.map Prod.fst) :
    Takes (l.read (levels + 1)) t (part (l.named ms)) := by
  have gathers := gathers_member [] given others (by simpa using nodup_named once)
  rw [List.append_nil, start] at gathers
  have read := reads_gathered written gathers
  obtain ⟨es, u, rfl, _⟩ := written
  exact .choose (by decide) (by decide) fun r _ => reads_check.mpr ⟨_, read r, finish_eq_ok fun slot listed required =>
    (mem_named_iff listed ms).mpr (there slot listed required)⟩

-- What the slots make of texts in their order, as long as there are texts.
inductive Fills (room : Nat) : σ → List (Slot σ) → List (List Char) → σ → Prop where
  | stop {state : σ} {slots : List (Slot σ)} : (∀ slot ∈ slots, slot.required = false) → Fills room state slots [] state
  | next {state final : σ} {slot : Slot σ} {slots : List (Slot σ)} {v : List Char} {vs : List (List Char)}
      {change : σ → σ} : Takes (slot.read room) v change → Fills room (change state) slots vs final →
      Fills room state (slot :: slots) (v :: vs) final

section Positions
variable {l : Layout σ} {room index : Nat} {state final : σ} {slot : Slot σ} {slots : List (Slot σ)} {s r : List Char}

theorem reads_arrayEnd : Reads arrayEnd s () r ↔ skipSpace s = ']' :: r := by
  rw [arrayEnd, reads_spaced]
  generalize skipSpace s = t
  cases t with
  | nil => simp [Reads]
  | cons c t =>
    by_cases closing : c = ']'
    · subst closing
      simp only [Reads, if_true, Rest.tail, List.cons.injEq, true_and]
      constructor
      · intro parts
        obtain ⟨_, e⟩ := parts
        cases e
        rfl
      · rintro rfl
        exact ⟨Nat.lt_succ_self _, rfl⟩
    · simp only [Reads, closing, if_false, List.cons.injEq, false_and, iff_false]
      intro parts
      obtain ⟨_, e⟩ := parts
      split at e <;> cases e

theorem positions_cons : l.positions room (slot :: slots) index state s =
    match nextItem (index == 0) s with
    | .error fault => .error fault
    | .ok (.stop r) =>
      match firstRequired (slot :: slots) index with
      | none => .ok (state, r)
      | some i => .error (.wrongLength i l.name l.slots.length)
    | .ok (.next t) =>
      match slot.read room t.1 with
      | .error fault => .error fault
      | .ok (change, r) =>
        match l.positions room slots (index + 1) (change state) r.1 with
        | .error fault => .error fault
        | .ok (final, u) => .ok (final, (r.trans u).widen t.2) := rfl

theorem reads_positions_nil :
    Reads (l.positions room [] index state) s final r ↔ final = state ∧ skipSpace s = ']' :: r := by
  change Reads (arrayEnd.map fun _ => state) s final r ↔ _
  rw [reads_map, ← reads_arrayEnd]
  constructor
  · intro parts
    obtain ⟨_, read, rfl⟩ := parts
    exact ⟨rfl, read⟩
  · intro parts
    obtain ⟨rfl, read⟩ := parts
    exact ⟨(), read, rfl⟩

theorem reads_positions_cons :
    Reads (l.positions room (slot :: slots) index state) s final r ↔
      (firstRequired (slot :: slots) index = none ∧ final = state ∧ skipSpace s = ']' :: r) ∨
        ∃ u change v, ItemAt (index == 0) (skipSpace s) u ∧ Reads (slot.read room) u change v ∧
          Reads (l.positions room slots (index + 1) (change state)) v final r := by
  rw [← @nextItem_stops_iff (index == 0)]
  simp only [← nextItem_goes_iff]
  unfold Item.Stops Item.Goes
  constructor
  · intro parts
    obtain ⟨h, e⟩ := parts
    rw [positions_cons] at e
    split at e
    · cases e
    · rename_i t stops
      split at e
      · rename_i nothing
        cases e
        exact .inl ⟨nothing, rfl, h, stops⟩
      · cases e
    · rename_i u goes
      split at e
      · cases e
      · rename_i change v read
        split at e
        · cases e
        · rename_i last w rest
          cases e
          exact .inr ⟨u.1, change, v.1, ⟨u.2, goes⟩, ⟨v.2, read⟩, w.2, rest⟩
  · intro parts
    rcases parts with ⟨nothing, rfl, h, stops⟩ | ⟨u, change, v, ⟨h, goes⟩, ⟨k, read⟩, j, rest⟩
    · exact ⟨h, by simp [positions_cons, stops, nothing]⟩
    · exact ⟨Nat.lt_of_lt_of_le (Nat.lt_trans j k) h,
        by simp [positions_cons, goes, read, rest, Rest.trans, Rest.widen]⟩

theorem reads_positions_stop (free : ∀ slot ∈ slots, slot.required = false) (closed : skipSpace s = ']' :: r) :
    Reads (l.positions room slots index state) s state r := by
  cases slots with
  | nil => exact reads_positions_nil.mpr ⟨rfl, closed⟩
  | cons slot slots => exact reads_positions_cons.mpr (.inl ⟨by simpa [firstRequired] using free, rfl, closed⟩)

theorem reads_positions_followed {vs : List (List Char)} {t : List Char} (followed : Followed ']' vs t)
    (fills : Fills room state slots vs final) (later : index ≠ 0) (r : List Char) :
    Reads (l.positions room slots index state) (t ++ r) final r := by
  induction followed generalizing state slots index with
  | stop gap =>
    obtain ⟨free⟩ := fills
    rw [List.append_assoc]
    exact reads_positions_stop free (gap.skipSpace_cons (by decide) r)
  | more gap gap' followed ih =>
    obtain _ | ⟨takes, fills⟩ := fills
    simp only [List.append_assoc, List.cons_append]
    have read := takes.reads [] _ gap_nil (followed.ends ends_bracket r)
    refine reads_positions_cons.mpr (.inr ⟨_, _, _, ?_, read, ih fills (Nat.succ_ne_zero index)⟩)
    rw [gap.skipSpace_cons (by decide), beq_false_of_ne later]
    exact takes.begins.itemAt_next gap' _

theorem reads_positions_enclosed {vs : List (List Char)} {t : List Char} (enclosed : Enclosed ']' vs t)
    (fills : Fills room state slots vs final) (r : List Char) :
    Reads (l.positions room slots 0 state) (t ++ r) final r := by
  cases enclosed with
  | empty gap =>
    obtain ⟨free⟩ := fills
    rw [List.append_assoc]
    exact reads_positions_stop free (gap.skipSpace_cons (by decide) r)
  | some gap followed =>
    obtain _ | ⟨takes, fills⟩ := fills
    simp only [List.append_assoc]
    have read := takes.reads [] _ gap_nil (followed.ends ends_bracket r)
    have rest := reads_positions_followed (l := l) followed fills (Nat.succ_ne_zero 0) r
    refine reads_positions_cons.mpr (.inr ⟨_, _, _, ?_, read, rest⟩)
    rw [gap.skipSpace_append, List.nil_append, takes.begins.skipSpace_append]
    exact takes.begins.itemAt_first _

theorem takes_positions {levels : Nat} {vs : List (List Char)} {t : List Char} (written : ArrayText vs t)
    (fills : Fills levels l.start l.slots vs final) : Takes (l.read (levels + 1)) t final := by
  obtain ⟨u, rfl, enclosed⟩ := written
  exact .choose (by decide) (by decide) fun r _ =>
    reads_andThen.mpr ⟨(), u ++ r, reads_char.mpr rfl, reads_positions_enclosed enclosed fills r⟩

end Positions

theorem fills_part {part : List String → σ} {room : Nat} {slots : List (Slot σ)} {vs : List (List Char)}
    (given : List.Forall₂ (Gives part room) (slots.take vs.length) vs)
    (free : ∀ slot ∈ slots.drop vs.length, slot.required = false) (names : List String) :
    Fills room (part names) slots vs (part (((slots.take vs.length).map Slot.name).reverse ++ names)) := by
  induction vs generalizing slots names with
  | nil => exact .stop free
  | cons v vs ih =>
    cases slots with
    | nil => cases given
    | cons slot slots =>
      obtain _ | ⟨⟨change, takes, fits⟩, given⟩ := given
      have rest := ih given free (slot.name :: names)
      rw [← fits names] at rest
      simpa using Fills.next takes rest

end Layout

theorem reads_mismatch {α : Type} {wanted : String} {c : Char} {s r : List Char} {a : α} :
    ¬ Reads (mismatch wanted c) s a r := by
  unfold mismatch
  split
  · exact reads_fail
  split
  · exact reads_fail
  · intro read
    obtain ⟨_, _, refused⟩ := reads_check.mp read
    cases refused

theorem exists_reads_of_mem_items {α : Type} {item : Reader α} {first : Bool} {s r : List Char} {as : List α}
    (read : Reads (items item first) s as r) {a : α} (member : a ∈ as) : ∃ t u, Reads item t a u := by
  induction as generalizing first s with
  | nil => simp at member
  | cons b bs ih =>
    rcases reads_items.mp read with ⟨equal, _⟩ | ⟨t, d, u, rest, _, single, others, equal⟩
    · cases equal
    · cases equal
      rcases List.mem_cons.mp member with rfl | later
      · exact ⟨t, u, single⟩
      · exact ih others later

theorem exists_reads_of_mem_sequence {α : Type} {item : Nat → Reader α} {room : Nat} {s r : List Char} {as : List α}
    (read : Reads (sequence item room) s as r) {a : α} (member : a ∈ as) : ∃ n t u, Reads (item n) t a u := by
  obtain ⟨c, t, _, read⟩ := reads_choose.mp read
  split at read
  · cases room with
    | zero => exact absurd read reads_fail
    | succ room =>
      obtain ⟨_, _, read⟩ := reads_array.mp read
      exact ⟨room, exists_reads_of_mem_items read member⟩
  · exact absurd read reads_mismatch

-- What the readers of the members keep, holds of a record that was read.

theorem shorter_of_keyAt {first : Bool} {s r : List Char} {name : String} (key : KeyAt first s name r) :
    r.length < s.length := by
  unfold KeyAt at key
  split at key
  · exact key.shorter
  · obtain ⟨v, rfl, key⟩ := key
    exact Nat.lt_succ_of_lt (Nat.lt_of_lt_of_le key.shorter (length_skipSpace_le v))

inductive MembersRead (step : σ → String → Except Fault (Reader σ)) : Bool → σ → List Char → σ → List Char → Prop where
  | stop {first : Bool} {state : σ} {s r : List Char} : skipSpace s = '}' :: r → MembersRead step first state s state r
  | next {first : Bool} {state next final : σ} {name : String} {reader : Reader σ} {s u v t r : List Char} :
      KeyAt first (skipSpace s) name u → step state name = .ok reader → skipSpace u = ':' :: v →
      Reads reader v next t → MembersRead step false next t final r → MembersRead step first state s final r

theorem membersRead_of_reads {step : σ → String → Except Fault (Reader σ)} {first : Bool} {state final : σ}
    {s r : List Char} (read : Reads (members step first state) s final r) :
    MembersRead step first state s final r := by
  induction size : s.length using Nat.strongRecOn generalizing first state s with
  | ind n ih =>
    rcases reads_members.mp read with ⟨rfl, closed⟩ | ⟨name, u, reader, v, next, t, key, known, colon, value, rest⟩
    · exact .stop closed
    · have shorter : t.length < n := by
        have behindKey := Nat.lt_of_lt_of_le (shorter_of_keyAt key) (length_skipSpace_le s)
        have behindColon := length_skipSpace_le u
        rw [colon, List.length_cons] at behindColon
        have behindValue := value.shorter
        omega
      exact .next key known colon value (ih t.length shorter rest rfl)

theorem members_keep {step : σ → String → Except Fault (Reader σ)} (holds : σ → Prop)
    (kept : ∀ {state next name reader s r}, step state name = .ok reader → Reads reader s next r → holds state →
      holds next)
    {first : Bool} {state final : σ} {s r : List Char} (read : Reads (members step first state) s final r)
    (start : holds state) : holds final := by
  have run := membersRead_of_reads read
  clear read
  induction run with
  | stop => exact start
  | next _ known _ value _ ih => exact ih (kept known value start)

namespace Layout
variable {l : Layout σ} {holds : σ → Prop}

def Keeps (l : Layout σ) (holds : σ → Prop) : Prop :=
  ∀ slot ∈ l.slots, ∀ {room s change r}, Reads (slot.read room) s change r →
    ∀ state, holds state → holds (change state)

theorem Keeps.positions (keeps : l.Keeps holds) {room index : Nat} {state final : σ} {slots : List (Slot σ)}
    {s r : List Char} (some : slots ⊆ l.slots) (read : Reads (l.positions room slots index state) s final r)
    (start : holds state) : holds final := by
  induction slots generalizing index state s with
  | nil =>
    obtain ⟨rfl, _⟩ := reads_positions_nil.mp read
    exact start
  | cons slot slots ih =>
    obtain ⟨listed, others⟩ := List.cons_subset.mp some
    rcases reads_positions_cons.mp read with ⟨_, rfl, _⟩ | ⟨u, change, v, _, value, rest⟩
    · exact start
    · exact ih others rest (keeps slot listed value state start)

theorem Keeps.member (keeps : l.Keeps holds) {room : Nat} {state next : σ × List String} {name : String}
    {reader : Reader (σ × List String)} {s r : List Char} (known : l.member room state name = .ok reader)
    (read : Reads reader s next r) (start : holds state.1) : holds next.1 := by
  unfold Layout.member at known
  split at known
  · cases known
    obtain ⟨_, _, rfl⟩ := reads_map.mp read
    exact start
  · rename_i slot found
    split at known
    · cases known
    · cases known
      obtain ⟨change, value, rfl⟩ := reads_map.mp read
      exact keeps slot (List.mem_of_find?_eq_some found) value state.1 start

theorem finish_eq_ok_inv {state : σ × List String} {a : σ} (done : l.finish state = .ok a) : a = state.1 := by
  unfold finish at done
  split at done <;> cases done
  rfl

theorem Keeps.read (keeps : l.Keeps holds) (start : holds l.start) {room : Nat} {s r : List Char} {a : σ}
    (read : Reads (l.read room) s a r) : holds a := by
  obtain ⟨c, t, _, read⟩ := reads_choose.mp read
  split at read
  · cases room with
    | zero => exact absurd read reads_fail
    | succ room =>
      obtain ⟨_, _, _, read⟩ := reads_andThen.mp read
      exact keeps.positions (List.Subset.refl _) read start
  · split at read
    · cases room with
      | zero => exact absurd read reads_fail
      | succ room =>
        obtain ⟨state, read, done⟩ := reads_check.mp read
        obtain ⟨_, _, read⟩ := reads_object.mp read
        rw [finish_eq_ok_inv done]
        exact members_keep (fun state => holds state.1) (fun known value => keeps.member known value) read start
    · exact absurd read reads_mismatch

end Layout
end Criteria.Json
