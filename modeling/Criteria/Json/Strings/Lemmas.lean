import Criteria.Json.Strings

namespace Criteria.Json.Reader

theorem past_of_reads {α : Type} {p : Reader α} {r t : List Char} {a : α} (h : Reads p r a t) (c : Char) :
    ∃ k : t.length < (c :: r).length, past p c r = .ok (a, ⟨t, k⟩) := by
  obtain ⟨k, h⟩ := h
  exact ⟨Nat.lt_succ_of_lt k, by simp [past, h, Rest.trans]⟩

theorem reads_fourDigits {a b c d : Char} {k l m n : Nat} (r : List Char) (ha : Text.hexValue? a = some k)
    (hb : Text.hexValue? b = some l) (hc : Text.hexValue? c = some m) (hd : Text.hexValue? d = some n) :
    Reads fourDigits (a :: b :: c :: d :: r) (((k * 16 + l) * 16 + m) * 16 + n) r :=
  ⟨by simp only [List.length_cons]; omega, by simp [fourDigits, ha, hb, hc, hd]⟩

theorem reads_named {e c : Char} (code : Reader Char) (r : List Char) (h : named? e = some c) :
    Reads (piece code) ('\\' :: e :: r) c r :=
  ⟨by simp only [List.length_cons]; omega, by simp [piece, past, escape, h, Rest.trans, Rest.tail]⟩

theorem reads_numbered {n : Nat} {s r : List Char} (h : Reads fourDigits s n r) (trailing : isTrailing n = false)
    (leading : isLeading n = false) : Reads numbered s (.ofNat n) r := by
  obtain ⟨k, h⟩ := h
  exact ⟨k, by simp [numbered, h, trailing, leading]⟩

theorem reads_code {c : Char} {s r : List Char} {code : Reader Char} (h : Reads code s c r) :
    Reads (piece code) ('\\' :: 'u' :: s) c r := by
  obtain ⟨k, h⟩ := h
  exact ⟨by simp only [List.length_cons]; omega, by simp [piece, past, escape, named?, h, Rest.trans]⟩

theorem reads_plain {c : Char} (code : Reader Char) (r : List Char) (h : c ≠ '\\') (k : ¬ c.toNat < 0x20) :
    Reads (piece code) (c :: r) c r :=
  ⟨by simp, by simp [piece, h, k, Rest.tail]⟩

theorem reads_body_end (code : Reader Char) (r : List Char) : Reads (body code) ('"' :: r) [] r := by
  refine ⟨by simp, ?_⟩
  rw [body]
  simp [Rest.tail]

theorem reads_body_cons {code : Reader Char} {s t r : List Char} {c : Char} {cs : List Char}
    (start : ∃ d u, s = d :: u ∧ d ≠ '"') (first : Reads (piece code) s c t) (rest : Reads (body code) t cs r) :
    Reads (body code) s (c :: cs) r := by
  obtain ⟨d, u, rfl, hd⟩ := start
  obtain ⟨hk, k⟩ := first
  obtain ⟨hl, l⟩ := rest
  refine ⟨Nat.lt_trans hl hk, ?_⟩
  rw [body]
  simp [hd, k, l, Rest.trans]

end Criteria.Json.Reader
