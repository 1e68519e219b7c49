import Criteria.Json.Container

namespace Criteria.Json.Reader
variable {α σ : Type}

def Item.Stops {s : List Char} (x : Except Fault (Item s)) (r : List Char) : Prop := ∃ h, x = .ok (.stop ⟨r, h⟩)

def Item.Goes {s : List Char} (x : Except Fault (Item s)) (u : List Char) : Prop := ∃ h, x = .ok (.next ⟨u, h⟩)

-- Where an item begins: behind a comma, unless it is the first, and not at the closing bracket.
def ItemAt (first : Bool) (s u : List Char) : Prop :=
  u ≠ [] ∧ u.head? ≠ some ']' ∧ (if first then s = u else ∃ v, s = ',' :: v ∧ skipSpace v = u)

theorem itemAt_stops_iff {first : Bool} {s r : List Char} : Item.Stops (itemAt first s) r ↔ s = ']' :: r := by
  unfold Item.Stops itemAt
  constructor
  · intro parts
    obtain ⟨_, h⟩ := parts
    repeat' split at h
    all_goals cases h
    subst_vars
    rfl
  · intro equal
    cases equal
    exact ⟨Nat.lt_succ_self _, rfl⟩

theorem itemAt_goes_iff {first : Bool} {s u : List Char} : Item.Goes (itemAt first s) u ↔ ItemAt first s u := by
  unfold Item.Goes itemAt ItemAt
  constructor
  · intro parts
    obtain ⟨_, h⟩ := parts
    repeat' split at h
    all_goals cases h
    · simp_all
    · rename_i c r _ _ _ d hd _
      refine ⟨?_, by simp_all, by simp_all⟩
      intro e
      simp_all
  · intro parts
    obtain ⟨h, k, e⟩ := parts
    cases first with
    | true =>
      rw [if_pos rfl] at e
      subst e
      cases s with
      | nil => exact absurd rfl h
      | cons c r =>
        have : c ≠ ']' := by simpa using k
        exact ⟨Nat.le_refl _, by simp [this, Remainder.all]⟩
    | false =>
      obtain ⟨v, rfl, rfl⟩ := e
      refine ⟨Nat.le_succ_of_le (length_skipSpace_le v), ?_⟩
      cases hv : (skipSpace v).head? with
      | none => simp_all
      | some d => simp_all

theorem Item.stops_widen {s t r : List Char} (shorter : s.length ≤ t.length) (x : Except Fault (Item s)) :
    Item.Stops (x.map (Item.widen shorter)) r ↔ Item.Stops x r := by
  cases x with
  | error fault => simp [Item.Stops, Except.map]
  | ok item =>
    cases item with
    | next u => simp [Item.Stops, Except.map, Item.widen]
    | stop u =>
      constructor
      · intro parts
        obtain ⟨_, h⟩ := parts
        cases h
        exact ⟨u.2, rfl⟩
      · intro parts
        obtain ⟨k, h⟩ := parts
        cases h
        exact ⟨Nat.lt_of_lt_of_le k shorter, rfl⟩

theorem Item.goes_widen {s t v : List Char} (shorter : s.length ≤ t.length) (x : Except Fault (Item s)) :
    Item.Goes (x.map (Item.widen shorter)) v ↔ Item.Goes x v := by
  cases x with
  | error fault => simp [Item.Goes, Except.map]
  | ok item =>
    cases item with
    | stop u => simp [Item.Goes, Except.map, Item.widen]
    | next u =>
      constructor
      · intro parts
        obtain ⟨_, h⟩ := parts
        cases h
        exact ⟨u.2, rfl⟩
      · intro parts
        obtain ⟨k, h⟩ := parts
        cases h
        exact ⟨Nat.le_trans k shorter, rfl⟩

theorem nextItem_eq (first : Bool) (s : List Char) :
    nextItem first s = (itemAt first (skipSpace s)).map (Item.widen (length_skipSpace_le s)) := by
  unfold nextItem
  cases itemAt first (skipSpace s) <;> rfl

theorem nextItem_stops_iff {first : Bool} {s r : List Char} :
    Item.Stops (nextItem first s) r ↔ skipSpace s = ']' :: r := by
  rw [nextItem_eq, Item.stops_widen, itemAt_stops_iff]

theorem nextItem_goes_iff {first : Bool} {s u : List Char} :
    Item.Goes (nextItem first s) u ↔ ItemAt first (skipSpace s) u := by
  rw [nextItem_eq, Item.goes_widen, itemAt_goes_iff]

theorem reads_items {item : Reader α} {first : Bool} {s r : List Char} {as : List α} :
    Reads (items item first) s as r ↔
      (as = [] ∧ skipSpace s = ']' :: r) ∨
        ∃ u a t rest, ItemAt first (skipSpace s) u ∧ Reads item u a t ∧ Reads (items item false) t rest r ∧
          as = a :: rest := by
  rw [← @nextItem_stops_iff first]
  simp only [← nextItem_goes_iff]
  unfold Reads Item.Stops Item.Goes
  rw [items]
  cases h : nextItem first s with
  | error fault => simp
  | ok next =>
    cases next with
    | stop t =>
      simp only [Except.ok.injEq, Prod.mk.injEq, Item.stop.injEq, reduceCtorEq, exists_false, false_and, or_false]
      constructor
      · intro parts
        obtain ⟨k, rfl, rfl⟩ := parts
        exact ⟨rfl, k, rfl⟩
      · intro parts
        obtain ⟨rfl, k, rfl⟩ := parts
        exact ⟨k, rfl, rfl⟩
    | next t =>
      constructor
      · intro parts
        obtain ⟨k, e⟩ := parts
        dsimp only at e
        split at e
        · cases e
        · rename_i a u ha
          split at e
          · cases e
          · rename_i rest v hv
            cases e
            exact .inr ⟨t.1, a, u.1, rest, ⟨t.2, rfl⟩, ⟨u.2, ha⟩, ⟨v.2, hv⟩, rfl⟩
      · intro parts
        rcases parts with ⟨_, k, e⟩ | ⟨u, a, v, rest, ⟨ht, e⟩, ⟨hv, ha⟩, ⟨hr, hrest⟩, rfl⟩
        · cases e
        · cases e
          exact ⟨Nat.lt_of_lt_of_le (Nat.lt_trans hr hv) ht, by simp [ha, hrest, Rest.trans, Rest.widen]⟩

theorem reads_array {item : Reader α} {s r : List Char} {as : List α} :
    Reads (array item) s as r ↔ ∃ t, s = '[' :: t ∧ Reads (items item true) t as r := by
  unfold array
  rw [reads_andThen]
  constructor
  · intro parts
    obtain ⟨_, t, h, k⟩ := parts
    exact ⟨t, reads_char.mp h, k⟩
  · intro parts
    obtain ⟨t, h, k⟩ := parts
    exact ⟨(), t, reads_char.mpr h, k⟩

def Member.Stops {s : List Char} (x : Except Fault (Member s)) (r : List Char) : Prop :=
  ∃ h, x = .ok (.stop ⟨r, h⟩)

def Member.Goes {s : List Char} (x : Except Fault (Member s)) (key : String) (r : List Char) : Prop :=
  ∃ h, x = .ok (.next key ⟨r, h⟩)

def KeyAt (first : Bool) (s : List Char) (key : String) (r : List Char) : Prop :=
  if first then Reads string s key r else ∃ v, s = ',' :: v ∧ Reads string (skipSpace v) key r

theorem head_of_reads_string {s r : List Char} {key : String} (h : Reads string s key r) : ∃ t, s = '"' :: t := by
  obtain ⟨_, t, h, _⟩ := reads_andThen.mp h
  exact ⟨t, reads_char.mp h⟩

theorem keyAt_goes_iff {close : Fault} {s r : List Char} {key : String} :
    Member.Goes (keyAt close s) key r ↔ Reads string s key r := by
  unfold Member.Goes keyAt
  constructor
  · intro parts
    obtain ⟨k, h⟩ := parts
    repeat' split at h
    all_goals cases h
    exact ⟨k, ‹_›⟩
  · intro h
    obtain ⟨t, rfl⟩ := head_of_reads_string h
    obtain ⟨k, h⟩ := h
    exact ⟨k, by simp [h]⟩

theorem not_stops_keyAt {close : Fault} {s r : List Char} : ¬ Member.Stops (keyAt close s) r := by
  unfold Member.Stops keyAt
  intro parts
  obtain ⟨k, h⟩ := parts
  repeat' split at h
  all_goals cases h

theorem Member.stops_widen {s t r : List Char} (shorter : s.length ≤ t.length) (x : Except Fault (Member s)) :
    Member.Stops (x.map (Member.widen shorter)) r ↔ Member.Stops x r := by
  cases x with
  | error fault => simp [Member.Stops, Except.map]
  | ok m =>
    cases m with
    | next key u => simp [Member.Stops, Except.map, Member.widen]
    | stop u =>
      constructor
      · intro parts
        obtain ⟨_, h⟩ := parts
        cases h
        exact ⟨u.2, rfl⟩
      · intro parts
        obtain ⟨k, h⟩ := parts
        cases h
        exact ⟨Nat.lt_of_lt_of_le k shorter, rfl⟩

theorem Member.goes_widen {s t r : List Char} {key : String} (shorter : s.length ≤ t.length)
    (x : Except Fault (Member s)) : Member.Goes (x.map (Member.widen shorter)) key r ↔ Member.Goes x key r := by
  cases x with
  | error fault => simp [Member.Goes, Except.map]
  | ok m =>
    cases m with
    | stop u => simp [Member.Goes, Except.map, Member.widen]
    | next name u =>
      constructor
      · intro parts
        obtain ⟨_, h⟩ := parts
        cases h
        exact ⟨u.2, rfl⟩
      · intro parts
        obtain ⟨k, h⟩ := parts
        cases h
        exact ⟨Nat.lt_of_lt_of_le k shorter, rfl⟩

theorem memberAt_comma (t : List Char) :
    memberAt false (',' :: t) = (keyAt .trailingComma (skipSpace t)).map
      (Member.widen (Nat.le_succ_of_le (length_skipSpace_le t))) := by
  cases key : keyAt .trailingComma (skipSpace t) <;> simp [memberAt, key, Except.map]

theorem memberAt_first {c : Char} (other : c ≠ '}') (t : List Char) :
    memberAt true (c :: t) = keyAt .keyNotString (c :: t) := by
  simp [memberAt, other]

theorem memberAt_next {c : Char} (other : c ≠ '}') (noComma : c ≠ ',') (t : List Char) :
    memberAt false (c :: t) = .error .expectedCommaOrBrace := by
  simp [memberAt, other, noComma]

theorem memberAt_stops_iff {first : Bool} {s r : List Char} : Member.Stops (memberAt first s) r ↔ s = '}' :: r := by
  constructor
  · intro h
    obtain _ | ⟨c, t⟩ := s
    · obtain ⟨_, h⟩ := h
      cases h
    by_cases close : c = '}'
    · subst close
      obtain ⟨_, h⟩ := h
      cases h
      rfl
    cases first with
    | true =>
      rw [memberAt_first close] at h
      exact absurd h not_stops_keyAt
    | false =>
      by_cases comma : c = ','
      · subst comma
        rw [memberAt_comma, Member.stops_widen] at h
        exact absurd h not_stops_keyAt
      · rw [memberAt_next close comma] at h
        obtain ⟨_, h⟩ := h
        cases h
  · intro equal
    cases equal
    exact ⟨Nat.lt_succ_self _, rfl⟩

theorem keyAt_head {first : Bool} {s r : List Char} {key : String} (h : KeyAt first s key r) :
    ∃ t, s = (if first then '"' else ',') :: t := by
  cases first with
  | true => exact head_of_reads_string h
  | false =>
    obtain ⟨v, whole, _⟩ := h
    exact ⟨v, whole⟩

theorem memberAt_goes_iff {first : Bool} {s r : List Char} {key : String} :
    Member.Goes (memberAt first s) key r ↔ KeyAt first s key r := by
  obtain _ | ⟨c, t⟩ := s
  · constructor
    · intro parts
      obtain ⟨_, h⟩ := parts
      cases h
    · intro h
      obtain ⟨_, h⟩ := keyAt_head h
      cases h
  by_cases close : c = '}'
  · subst close
    constructor
    · intro parts
      obtain ⟨_, h⟩ := parts
      cases h
    · intro h
      obtain ⟨_, h⟩ := keyAt_head h
      cases first <;> cases h
  cases first with
  | true =>
    rw [memberAt_first close]
    exact keyAt_goes_iff
  | false =>
    by_cases comma : c = ','
    · subst comma
      rw [memberAt_comma, Member.goes_widen, keyAt_goes_iff]
      simp [KeyAt]
    · rw [memberAt_next close comma]
      simp [Member.Goes, KeyAt, comma]

theorem nextMember_eq (first : Bool) (s : List Char) :
    nextMember first s = (memberAt first (skipSpace s)).map (Member.widen (length_skipSpace_le s)) := by
  unfold nextMember
  cases memberAt first (skipSpace s) <;> rfl

theorem nextMember_stops_iff {first : Bool} {s r : List Char} :
    Member.Stops (nextMember first s) r ↔ skipSpace s = '}' :: r := by
  rw [nextMember_eq, Member.stops_widen, memberAt_stops_iff]

theorem nextMember_goes_iff {first : Bool} {s r : List Char} {key : String} :
    Member.Goes (nextMember first s) key r ↔ KeyAt first (skipSpace s) key r := by
  rw [nextMember_eq, Member.goes_widen, memberAt_goes_iff]

theorem reads_colon {s r : List Char} : Reads colon s () r ↔ skipSpace s = ':' :: r := by
  unfold colon
  rw [reads_spaced, reads_char]

theorem reads_members {step : σ → String → Except Fault (Reader σ)} {first : Bool} {state final : σ}
    {s r : List Char} :
    Reads (members step first state) s final r ↔
      (final = state ∧ skipSpace s = '}' :: r) ∨
        ∃ key u value v state' t, KeyAt first (skipSpace s) key u ∧ step state key = .ok value ∧
          skipSpace u = ':' :: v ∧ Reads value v state' t ∧ Reads (members step false state') t final r := by
  rw [← @nextMember_stops_iff first]
  simp only [← nextMember_goes_iff, ← reads_colon]
  unfold Member.Stops Member.Goes
  constructor
  · intro parts
    obtain ⟨k, e⟩ := parts
    rw [members] at e
    split at e
    · cases e
    · rename_i t ht
      cases e
      exact .inl ⟨rfl, k, ht⟩
    · rename_i key u hu
      split at e
      · cases e
      · rename_i value hv
        split at e
        · cases e
        · rename_i state' t ht
          split at e
          · cases e
          · rename_i last w hw
            cases e
            obtain ⟨_, v, hc, hr⟩ := reads_andThen.mp ⟨t.2, ht⟩
            exact .inr ⟨key, u.1, value, v, state', t.1, ⟨u.2, hu⟩, hv, hc, hr, w.2, hw⟩
  · intro parts
    rcases parts with ⟨rfl, k, e⟩ | ⟨key, u, value, v, state', t, ⟨hu, e⟩, hs, hc, hr, ⟨hw, rest⟩⟩
    · refine ⟨k, ?_⟩
      rw [members, e]
    · obtain ⟨ht, both⟩ := reads_andThen (f := fun _ => value) |>.mpr ⟨(), v, hc, hr⟩
      refine ⟨Nat.lt_trans hw (Nat.lt_trans ht hu), ?_⟩
      rw [members, e]
      simp [hs, both, rest, Rest.trans]

theorem reads_object {step : σ → String → Except Fault (Reader σ)} {start final : σ} {s r : List Char} :
    Reads (object step start) s final r ↔ ∃ t, s = '{' :: t ∧ Reads (members step true start) t final r := by
  unfold object
  rw [reads_andThen]
  constructor
  · intro parts
    obtain ⟨_, t, h, k⟩ := parts
    exact ⟨t, reads_char.mp h, k⟩
  · intro parts
    obtain ⟨t, h, k⟩ := parts
    exact ⟨(), t, reads_char.mpr h, k⟩

end Criteria.Json.Reader
