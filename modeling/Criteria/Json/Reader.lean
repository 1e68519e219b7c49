import Criteria.Json.Fault

namespace Criteria.Json

-- What is left of a text is shorter, so that loops over a text end without a counter.
abbrev Rest (s : List Char) := { r : List Char // r.length < s.length }

def Rest.trans {s : List Char} (r : Rest s) (t : Rest r.1) : Rest s := ⟨t.1, Nat.lt_trans t.2 r.2⟩

def Rest.widen {s t : List Char} (h : s.length ≤ t.length) (r : Rest s) : Rest t :=
  ⟨r.1, Nat.lt_of_lt_of_le r.2 h⟩

def Rest.tail (c : Char) (r : List Char) : Rest (c :: r) := ⟨r, Nat.lt_succ_self _⟩

abbrev Remainder (s : List Char) := { r : List Char // r.length ≤ s.length }

def Remainder.all (s : List Char) : Remainder s := ⟨s, Nat.le_refl _⟩

abbrev Reader (α : Type) := (s : List Char) → Except Fault (α × Rest s)

namespace Reader
variable {α β : Type}

def Reads (p : Reader α) (s : List Char) (a : α) (r : List Char) : Prop :=
  ∃ h : r.length < s.length, p s = .ok (a, ⟨r, h⟩)

def fail (fault : Fault) : Reader α := fun _ => .error fault

def map (f : α → β) (p : Reader α) : Reader β := fun s =>
  match p s with
  | .error fault => .error fault
  | .ok (a, r) => .ok (f a, r)

def check (f : α → Except Fault β) (p : Reader α) : Reader β := fun s =>
  match p s with
  | .error fault => .error fault
  | .ok (a, r) =>
    match f a with
    | .error fault => .error fault
    | .ok b => .ok (b, r)

def andThen (p : Reader α) (f : α → Reader β) : Reader β := fun s =>
  match p s with
  | .error fault => .error fault
  | .ok (a, r) =>
    match f a r.1 with
    | .error fault => .error fault
    | .ok (b, t) => .ok (b, r.trans t)

def isSpace (c : Char) : Bool := c == ' ' || c == '\t' || c == '\n' || c == '\r'

def skipSpace (s : List Char) : List Char := s.dropWhile isSpace

theorem length_skipSpace_le (s : List Char) : (skipSpace s).length ≤ s.length :=
  (List.dropWhile_sublist _).length_le

def spaced (p : Reader α) : Reader α := fun s =>
  match p (skipSpace s) with
  | .error fault => .error fault
  | .ok (a, r) => .ok (a, r.widen (length_skipSpace_le s))

-- The next character, which the chosen reader still has to read, decides.
def choose (f : Char → Reader α) : Reader α :=
  spaced fun s =>
    match s with
    | [] => .error (.unfinished .value)
    | c :: r => f c (c :: r)

def char (cut other : Fault) (c : Char) : Reader Unit := fun s =>
  match s with
  | [] => .error cut
  | d :: r => if d = c then .ok ((), .tail d r) else .error other

def word (a : α) : Char → List Char → Reader α
  | c, [] => (char (.unfinished .value) .expectedWord c).map fun _ => a
  | c, d :: ds => (char (.unfinished .value) .expectedWord c).andThen fun _ => word a d ds

theorem Reads.shorter {p : Reader α} {s r : List Char} {a : α} (h : Reads p s a r) : r.length < s.length := h.1

theorem Reads.unique {p : Reader α} {s r t : List Char} {a b : α} (h : Reads p s a r) (k : Reads p s b t) :
    a = b ∧ r = t := by
  obtain ⟨_, h⟩ := h
  obtain ⟨_, k⟩ := k
  rw [h] at k
  simpa using k

theorem reads_fail {fault : Fault} {s r : List Char} {a : α} : ¬ Reads (fail fault) s a r := by
  intro parts
  obtain ⟨_, h⟩ := parts
  simp [fail] at h

theorem reads_map {p : Reader α} {f : α → β} {s r : List Char} {b : β} :
    Reads (p.map f) s b r ↔ ∃ a, Reads p s a r ∧ f a = b := by
  unfold Reads map
  split
  · simp_all
  · rename_i a t e
    constructor
    · intro parts
      obtain ⟨h, k⟩ := parts
      cases k
      exact ⟨a, ⟨h, e⟩, rfl⟩
    · intro parts
      obtain ⟨x, ⟨h, k⟩, rfl⟩ := parts
      rw [e] at k
      cases k
      exact ⟨h, rfl⟩

theorem reads_check {p : Reader α} {f : α → Except Fault β} {s r : List Char} {b : β} :
    Reads (p.check f) s b r ↔ ∃ a, Reads p s a r ∧ f a = .ok b := by
  unfold Reads check
  split
  · simp_all
  · rename_i a t e
    constructor
    · intro parts
      obtain ⟨h, k⟩ := parts
      split at k
      · cases k
      · rename_i c hc
        cases k
        exact ⟨a, ⟨h, e⟩, hc⟩
    · intro parts
      obtain ⟨x, ⟨h, k⟩, hx⟩ := parts
      rw [e] at k
      cases k
      exact ⟨h, by simp [hx]⟩

theorem reads_andThen {p : Reader α} {f : α → Reader β} {s r : List Char} {b : β} :
    Reads (p.andThen f) s b r ↔ ∃ a m, Reads p s a m ∧ Reads (f a) m b r := by
  unfold Reads andThen
  split
  · simp_all
  · rename_i a m e
    constructor
    · intro parts
      obtain ⟨h, k⟩ := parts
      split at k
      · cases k
      · rename_i c t ht
        cases k
        exact ⟨a, m.1, ⟨m.2, e⟩, t.2, ht⟩
    · intro parts
      obtain ⟨x, n, ⟨h, k⟩, h', k'⟩ := parts
      rw [e] at k
      cases k
      exact ⟨Nat.lt_trans h' h, by simp [k', Rest.trans]⟩

theorem reads_spaced {p : Reader α} {s r : List Char} {a : α} :
    Reads (spaced p) s a r ↔ Reads p (skipSpace s) a r := by
  unfold Reads spaced
  split
  · simp_all
  · rename_i b t e
    constructor
    · intro parts
      obtain ⟨h, k⟩ := parts
      cases k
      exact ⟨t.2, e⟩
    · intro parts
      obtain ⟨h, k⟩ := parts
      rw [e] at k
      cases k
      exact ⟨Nat.lt_of_lt_of_le h (length_skipSpace_le s), rfl⟩

theorem reads_choose {f : Char → Reader α} {s r : List Char} {a : α} :
    Reads (choose f) s a r ↔ ∃ c t, skipSpace s = c :: t ∧ Reads (f c) (c :: t) a r := by
  unfold choose
  rw [reads_spaced]
  cases skipSpace s with
  | nil => simp [Reads]
  | cons c t =>
    constructor
    · exact fun h => ⟨c, t, rfl, h⟩
    · intro parts
      obtain ⟨d, u, e, h⟩ := parts
      cases e
      exact h

theorem reads_char {cut other : Fault} {c : Char} {s r : List Char} :
    Reads (char cut other c) s () r ↔ s = c :: r := by
  unfold Reads char
  cases s with
  | nil => simp
  | cons d t =>
    by_cases h : d = c
    · subst h
      simp only [if_pos, Rest.tail, List.cons.injEq, true_and]
      constructor
      · intro parts
        obtain ⟨_, k⟩ := parts
        cases k
        rfl
      · intro equal
        cases equal
        exact ⟨Nat.lt_succ_self _, rfl⟩
    · simp [h]

theorem reads_word {a b : α} {c : Char} {cs s r : List Char} :
    Reads (word a c cs) s b r ↔ a = b ∧ s = c :: cs ++ r := by
  induction cs generalizing c s with
  | nil =>
    simp only [word, reads_map]
    constructor
    · intro parts
      obtain ⟨_, h, rfl⟩ := parts
      exact ⟨rfl, by simpa using reads_char.mp h⟩
    · intro parts
      obtain ⟨rfl, rfl⟩ := parts
      exact ⟨(), reads_char.mpr rfl, rfl⟩
  | cons d ds ih =>
    simp only [word, reads_andThen, ih]
    constructor
    · intro parts
      obtain ⟨_, m, h, rfl, rfl⟩ := parts
      exact ⟨rfl, by simpa using reads_char.mp h⟩
    · intro parts
      obtain ⟨rfl, rfl⟩ := parts
      exact ⟨(), d :: ds ++ r, reads_char.mpr rfl, rfl, rfl⟩

end Reader

def decode {α : Type} (p : Reader α) (text : String) : Except Fault α :=
  match p text.toList with
  | .error fault => .error fault
  | .ok (a, r) => if Reader.skipSpace r.1 = [] then .ok a else .error .trailingCharacters

theorem decode_eq_ok_iff {α : Type} {p : Reader α} {text : String} {a : α} :
    decode p text = .ok a ↔ ∃ r, Reader.Reads p text.toList a r ∧ Reader.skipSpace r = [] := by
  unfold decode Reader.Reads
  split
  · simp_all
  · rename_i b t e
    constructor
    · intro h
      split at h
      · rename_i ht
        cases h
        exact ⟨t.1, ⟨t.2, e⟩, ht⟩
      · cases h
    · intro parts
      obtain ⟨r, ⟨h, k⟩, hr⟩ := parts
      rw [e] at k
      cases k
      simp [hr]

end Criteria.Json
