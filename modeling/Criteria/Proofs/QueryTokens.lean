import Criteria.Proofs.InsertionOrder
import Criteria.Query

namespace Criteria
open Text (percentEncode percentByte percentChars)

def separators : List Char := ['&', '=', '[', ']']

theorem unreserved_no_separator : ∀ n < 256, Text.isUnreserved (UInt8.ofNat n) = true → Char.ofNat n ∉ separators := by
  decide +kernel

theorem upperHex_no_separator : ∀ n < 16, Text.upperHex n ∉ separators := by decide

theorem percentByte_no_separator {b : UInt8} {c : Char} (written : c ∈ percentByte b) : c ∉ separators := by
  have bound : b.toNat < 256 := UInt8.toNat_lt_size b
  unfold percentByte at written
  split at written
  · rename_i plain
    rw [List.mem_singleton.mp written]
    exact unreserved_no_separator b.toNat bound (by rwa [UInt8.ofNat_toNat])
  · simp only [List.mem_cons, List.not_mem_nil, or_false] at written
    rcases written with rfl | rfl | rfl
    · decide
    · exact upperHex_no_separator _ (by omega)
    · exact upperHex_no_separator _ (by omega)

theorem percentEncode_no_separator {s : String} {c : Char} (member : c ∈ (percentEncode s).toList) :
    c ∉ separators := by
  rw [percentEncode, String.toList_ofList, percentChars, List.mem_flatMap] at member
  obtain ⟨b, _, written⟩ := member
  exact percentByte_no_separator written

theorem splitFirst_append {c : Char} {before : List Char} (absent : c ∉ before) (after : List Char) :
    splitFirst c (before ++ c :: after) = some (before, after) := by
  have passed : ∀ d ∈ before, (d != c) = true := by
    intro d member
    have other : d ≠ c := fun equal => absent (equal ▸ member)
    simpa using other
  simp [splitFirst, List.dropWhile_append_of_pos passed, List.takeWhile_append_of_pos passed]

namespace Token

def keyPart (t : Token) : List Char := (percentEncode t.key).toList ++ if t.item then ['[', ']'] else []

theorem toList_render (t : Token) : t.render.toList = t.keyPart ++ '=' :: (percentEncode t.value).toList := by
  cases item : t.item <;> simp [render, keyPart, item]

theorem equals_not_in_keyPart (t : Token) : '=' ∉ t.keyPart := by
  intro member
  rcases List.mem_append.mp member with encoded | bracket
  · exact percentEncode_no_separator encoded (by decide)
  · cases item : t.item <;> simp [item] at bracket

-- Only the brackets of an item can end a key so.
theorem keyPart_item_iff (t : Token) :
    t.keyPart.drop (t.keyPart.length - 2) = ['[', ']'] ↔ t.item = true := by
  cases item : t.item with
  | true => simp [keyPart, item]
  | false =>
    simp only [Bool.false_eq_true, iff_false]
    intro ending
    have bracket : '[' ∈ t.keyPart := List.mem_of_mem_drop (by rw [ending]; simp)
    rw [keyPart, item] at bracket
    exact percentEncode_no_separator (by simpa using bracket) (by decide)

theorem parse?_render (t : Token) : parse? t.render.toList = some t := by
  have key : (if t.item = true then t.keyPart.take (t.keyPart.length - 2) else t.keyPart) =
      (percentEncode t.key).toList := by
    cases item : t.item <;> simp [keyPart, item]
  rw [parse?, toList_render, splitFirst_append t.equals_not_in_keyPart]
  simp only [Option.bind_eq_bind, Option.bind_some, keyPart_item_iff, key, String.ofList_toList,
    Text.percentDecode?_percentEncode]
  simp

theorem ampersand_not_in_render (t : Token) : '&' ∉ t.render.toList := by
  rw [toList_render]
  intro member
  rcases List.mem_append.mp member with keyed | valued
  · rcases List.mem_append.mp keyed with encoded | bracket
    · exact percentEncode_no_separator encoded (by decide)
    · cases item : t.item <;> simp [item] at bracket
  · rcases List.mem_cons.mp valued with equal | encoded
    · cases equal
    · exact percentEncode_no_separator encoded (by decide)

theorem mapM_parse?_render (tokens : List Token) :
    (tokens.map fun t => t.render.toList).mapM parse? = some tokens := by
  induction tokens with
  | nil => rfl
  | cons t tokens ih =>
    rw [List.map_cons, List.mapM_cons, parse?_render, ih]
    rfl

end Token

namespace Query

theorem toList_render (tokens : List Token) :
    (render tokens).toList = ['&'].intercalate (tokens.map fun t => t.render.toList) := by
  simp [render, Function.comp_def]

theorem render_ne_empty {tokens : List Token} (given : tokens ≠ []) : render tokens ≠ "" := by
  intro empty
  obtain ⟨t, rest, rfl⟩ := List.exists_cons_of_ne_nil given
  have chars := toList_render (t :: rest)
  rw [empty] at chars
  cases rest <;> simp [List.intercalate_cons_cons, Token.toList_render] at chars

theorem splitOn_render {tokens : List Token} (given : tokens ≠ []) :
    (render tokens).toList.splitOn '&' = tokens.map fun t => t.render.toList := by
  rw [toList_render]
  apply List.splitOn_intercalate
  · intro chars member
    obtain ⟨t, _, rfl⟩ := List.mem_map.mp member
    exact t.ampersand_not_in_render
  · simpa using given

theorem tokens?_render (tokens : List Token) : tokens? (render tokens) = some tokens := by
  by_cases empty : tokens = []
  · subst empty
    rfl
  · rw [tokens?, if_neg (render_ne_empty empty), splitOn_render empty, Token.mapM_parse?_render]

end Query
end Criteria
