import Criteria.Text.Percent
import Mathlib.Algebra.Group.Nat.Defs

namespace Criteria.Text

def trail (v : Nat) : Nat → List UInt8
  | 0 => []
  | k + 1 => UInt8.ofNat (v / 64 ^ k % 64 + 0x80) :: trail v k

inductive Leads : Nat → Nat → Nat → Prop where
  | alone {v : Nat} : v ≤ 0x7f → Leads v v 0
  | one {v : Nat} : 0x7f < v → v ≤ 0x7ff → Leads v (v / 64 + 0xc0) 1
  | two {v : Nat} : 0x7ff < v → v ≤ 0xffff → Leads v (v / 64 ^ 2 + 0xe0) 2
  | three {v : Nat} : 0xffff < v → v < 0x110000 → Leads v (v / 64 ^ 3 + 0xf0) 3

theorem Leads.small {v b k : Nat} (leads : Leads v b k) : b < 256 := by cases leads <;> omega

-- A higher number has a higher leading byte, or the same one and the same bits in it.
theorem Leads.lt {v w b d k m : Nat} (leads : Leads v b k) (leads' : Leads w d m) (less : v < w) :
    b < d ∨ b = d ∧ k = m ∧ v / 64 ^ k = w / 64 ^ k := by
  cases leads <;> cases leads' <;> omega

theorem utf8EncodeChar_eq (c : Char) :
    ∃ b k, Leads c.toNat b k ∧ String.utf8EncodeChar c = UInt8.ofNat b :: trail c.toNat k := by
  have bound : c.val.toNat < 0x110000 := by
    have valid := c.valid
    simp only [UInt32.isValidChar, Nat.isValidChar] at valid
    omega
  change ∃ b k, Leads c.val.toNat b k ∧ _ = _ :: trail c.val.toNat k
  unfold String.utf8EncodeChar
  generalize c.val.toNat = v at bound ⊢
  by_cases h : v ≤ 0x7f
  · exact ⟨_, _, .alone h, by simp [h, trail]⟩
  by_cases h' : v ≤ 0x7ff
  · have top : v / 64 % 32 = v / 64 := by omega
    exact ⟨_, _, .one (by omega) h', by simp [h, h', trail, top]⟩
  by_cases h'' : v ≤ 0xffff
  · have top : v / 4096 % 16 = v / 4096 := by omega
    exact ⟨_, _, .two (by omega) h'', by simp [h, h', h'', trail, top]⟩
  · have top : v / 262144 % 8 = v / 262144 := by omega
    exact ⟨_, _, .three (by omega) bound, by simp [h, h', h'', trail, top]⟩

theorem ofNat_cons_lt {m n : Nat} (less : m < n) (small : n < 256) (s t : List UInt8) :
    UInt8.ofNat m :: s < UInt8.ofNat n :: t := by
  refine List.cons_lt_cons_iff.mpr (.inl ?_)
  rw [UInt8.lt_iff_toNat_lt, UInt8.toNat_ofNat_of_lt' (Nat.lt_trans less small), UInt8.toNat_ofNat_of_lt' small]
  exact less

theorem trail_append_lt {v w : Nat} (less : v < w) {k : Nat} (same : v / 64 ^ k = w / 64 ^ k) (s t : List UInt8) :
    trail v k ++ s < trail w k ++ t := by
  induction k with
  | zero => exact absurd (by simpa using same) (Nat.ne_of_lt less)
  | succ k ih =>
    rw [Nat.pow_succ, ← Nat.div_div_eq_div_mul, ← Nat.div_div_eq_div_mul] at same
    rw [trail, trail, List.cons_append, List.cons_append]
    -- The six bits of the next byte decide, or they are the same and the bytes behind it do.
    rcases Nat.lt_or_eq_of_le (Nat.div_le_div_right (c := 64 ^ k) (Nat.le_of_lt less)) with lower | equal
    · exact ofNat_cons_lt (by omega) (by omega) _ _
    · rw [equal]
      exact List.cons_lt_cons_iff.mpr (.inr ⟨rfl, ih equal⟩)

theorem utf8EncodeChar_append_lt {c d : Char} (less : c < d) (s t : List UInt8) :
    String.utf8EncodeChar c ++ s < String.utf8EncodeChar d ++ t := by
  obtain ⟨b, k, leads, bytes⟩ := utf8EncodeChar_eq c
  obtain ⟨b', k', leads', bytes'⟩ := utf8EncodeChar_eq d
  rw [bytes, bytes', List.cons_append, List.cons_append]
  have number : c.toNat < d.toNat := less
  rcases leads.lt leads' number with lower | ⟨rfl, rfl, same⟩
  · exact ofNat_cons_lt lower leads'.small _ _
  · exact List.cons_lt_cons_iff.mpr (.inr ⟨rfl, trail_append_lt number same s t⟩)

theorem utf8_lt {cs ds : List Char} (less : cs < ds) : utf8 cs < utf8 ds := by
  induction cs generalizing ds with
  | nil =>
    cases ds with
    | nil => exact absurd less (List.lt_irrefl _)
    | cons d ds =>
      obtain ⟨b, k, _, bytes⟩ := utf8EncodeChar_eq d
      rw [utf8, utf8, List.flatMap_cons, bytes]
      exact List.nil_lt_cons _ _
  | cons c cs ih =>
    cases ds with
    | nil => exact absurd less (List.not_lt_nil _)
    | cons d ds =>
      rw [utf8, utf8, List.flatMap_cons, List.flatMap_cons]
      rcases List.cons_lt_cons_iff.mp less with lower | ⟨rfl, rest⟩
      · exact utf8EncodeChar_append_lt lower _ _
      · exact List.append_left_lt (ih rest)

-- In units of 16 bits the two would stand the other way round.
example : utf8 "\uffff".toList < utf8 "😀".toList := by decide

end Criteria.Text
