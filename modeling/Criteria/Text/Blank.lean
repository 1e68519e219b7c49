namespace Criteria.Text

-- The Unicode property White_Space.
def isBlank (c : Char) : Bool :=
  let n := c.toNat
  (9 ≤ n && n ≤ 13) || n == 0x20 || n == 0x85 || n == 0xA0 || n == 0x1680 || (0x2000 ≤ n && n ≤ 0x200A) ||
    n == 0x2028 || n == 0x2029 || n == 0x202F || n == 0x205F || n == 0x3000

def dropBlanks (cs : List Char) : List Char := cs.dropWhile isBlank

def trimChars (cs : List Char) : List Char := (dropBlanks (dropBlanks cs).reverse).reverse

def trim (s : String) : String := .ofList (trimChars s.toList)

theorem dropBlanks_split (cs : List Char) : ∃ p, (∀ c ∈ p, isBlank c = true) ∧ cs = p ++ dropBlanks cs := by
  refine ⟨cs.takeWhile isBlank, fun c hc => ?_, (List.takeWhile_append_dropWhile).symm⟩
  exact List.all_eq_true.mp List.all_takeWhile c hc

theorem dropBlanks_head (cs : List Char) : ∀ c r, dropBlanks cs = c :: r → isBlank c = false := by
  intro c r h
  induction cs with
  | nil => simp [dropBlanks] at h
  | cons d cs ih =>
    by_cases hd : isBlank d = true
    · exact ih (by simpa [dropBlanks, hd] using h)
    · simp only [dropBlanks, List.dropWhile_cons_of_neg hd, List.cons.injEq] at h
      rw [← h.1]; simpa using hd

theorem dropBlanks_eq_trimChars (cs : List Char) :
    ∃ q, (∀ c ∈ q, isBlank c = true) ∧ dropBlanks cs = trimChars cs ++ q := by
  obtain ⟨p, blank, split⟩ := dropBlanks_split (dropBlanks cs).reverse
  refine ⟨p.reverse, fun c member => blank c (List.mem_reverse.mp member), ?_⟩
  have turned := congrArg List.reverse split
  rwa [List.reverse_reverse, List.reverse_append] at turned

theorem trimChars_split (cs : List Char) :
    ∃ p q, (∀ c ∈ p, isBlank c = true) ∧ (∀ c ∈ q, isBlank c = true) ∧ cs = p ++ trimChars cs ++ q := by
  obtain ⟨p, blankBefore, front⟩ := dropBlanks_split cs
  obtain ⟨q, blankBehind, back⟩ := dropBlanks_eq_trimChars cs
  refine ⟨p, q, blankBefore, blankBehind, ?_⟩
  rw [List.append_assoc, ← back]
  exact front

theorem trimChars_last (cs : List Char) : ∀ c r, (trimChars cs).reverse = c :: r → isBlank c = false := by
  intro c r ends
  rw [trimChars, List.reverse_reverse] at ends
  exact dropBlanks_head _ c r ends

theorem trimChars_head (cs : List Char) : ∀ c r, trimChars cs = c :: r → isBlank c = false := by
  intro c r begins
  obtain ⟨q, _, back⟩ := dropBlanks_eq_trimChars cs
  rw [begins] at back
  exact dropBlanks_head cs c (r ++ q) back

end Criteria.Text
