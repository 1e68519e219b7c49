import Criteria.Json.Container.Lemmas
import Criteria.Json.Strings.Lemmas
import Criteria.Json.Value

namespace Criteria.Json

mutual

def depth : Json → Nat
  | .array items => depthItems items + 1
  | .object members => depthMembers members + 1
  | _ => 0

def depthItems : List Json → Nat
  | [] => 0
  | v :: vs => max (depth v) (depthItems vs)

def depthMembers : List (String × Json) → Nat
  | [] => 0
  | (_, v) :: ms => max (depth v) (depthMembers ms)

end

theorem depthItems_le_iff {vs : List Json} {levels : Nat} : depthItems vs ≤ levels ↔ ∀ v ∈ vs, v.depth ≤ levels := by
  induction vs with
  | nil => simp [depthItems]
  | cons v vs ih => rw [depthItems, Nat.max_le, ih, List.forall_mem_cons]

theorem depthMembers_le_iff {ms : List (String × Json)} {levels : Nat} :
    depthMembers ms ≤ levels ↔ ∀ m ∈ ms, m.2.depth ≤ levels := by
  induction ms with
  | nil => simp [depthMembers]
  | cons m ms ih => rw [depthMembers, Nat.max_le, ih, List.forall_mem_cons]

mutual

-- The text of such a tree tells all of it; the double of a numeral is found by floating-point arithmetic.
def numberless : Json → Bool
  | .number _ => false
  | .array items => numberlessItems items
  | .object members => numberlessMembers members
  | _ => true

def numberlessItems : List Json → Bool
  | [] => true
  | v :: vs => numberless v && numberlessItems vs

def numberlessMembers : List (String × Json) → Bool
  | [] => true
  | (_, v) :: ms => numberless v && numberlessMembers ms

end

namespace Reader

theorem skipSpace_cons {c : Char} (h : isSpace c = false) (r : List Char) : skipSpace (c :: r) = c :: r := by
  simp [skipSpace, h]

theorem reads_choose_of {α : Type} {f : Char → Reader α} {c : Char} {t r : List Char} {a : α}
    (space : isSpace c = false) (h : Reads (f c) (c :: t) a r) : Reads (choose f) (c :: t) a r :=
  reads_choose.mpr ⟨c, t, skipSpace_cons space t, h⟩

theorem reads_scalar_of {room : Nat} {c : Char} {t r : List Char} {v : Json} (space : isSpace c = false)
    (opens : c ≠ '[' ∧ c ≠ '{') (h : Reads (scalar c) (c :: t) v r) : Reads (value room) (c :: t) v r := by
  cases room with
  | zero =>
    rw [value]
    exact reads_choose_of space (by simpa [opens.1, opens.2] using h)
  | succ room =>
    rw [value]
    exact reads_choose_of space (by simpa [opens.1, opens.2] using h)

end Reader

end Criteria.Json
