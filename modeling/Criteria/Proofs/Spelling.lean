import Criteria.Proofs.Compiled
import Mathlib.Algebra.GroupWithZero.Nat
import Mathlib.Data.List.Forall2

namespace Criteria
open Text (percentEncode percentByte percentChars)

def isPlain (c : Char) : Bool := c.isAlphanum || ['-', '_', '.', '~'].contains c

def isUpperHex (c : Char) : Bool := c.isDigit || ('A' ≤ c && c ≤ 'F')

inductive Escaped : List Char → Prop where
  | nil : Escaped []
  | plain {c : Char} {rest : List Char} : isPlain c = true → Escaped rest → Escaped (c :: rest)
  | byte {a b : Char} {rest : List Char} :
      isUpperHex a = true → isUpperHex b = true → Escaped rest → Escaped ('%' :: a :: b :: rest)

theorem isPlain_of_unreserved : ∀ n < 256, Text.isUnreserved (UInt8.ofNat n) = true → isPlain (Char.ofNat n) = true := by
  decide +kernel

theorem isUpperHex_upperHex : ∀ n < 16, isUpperHex (Text.upperHex n) = true := by decide

theorem Escaped.percentByte_append (b : UInt8) {rest : List Char} (escaped : Escaped rest) :
    Escaped (percentByte b ++ rest) := by
  have bound : b.toNat < 256 := UInt8.toNat_lt_size b
  unfold percentByte
  split
  · rename_i unreserved
    refine .plain (isPlain_of_unreserved b.toNat bound ?_) escaped
    rwa [UInt8.ofNat_toNat]
  · exact .byte (isUpperHex_upperHex _ (by omega)) (isUpperHex_upperHex _ (by omega)) escaped

theorem escaped_flatMap (bytes : List UInt8) : Escaped (bytes.flatMap percentByte) := by
  induction bytes with
  | nil => exact .nil
  | cons b bytes ih => exact ih.percentByte_append b

theorem escaped_percentEncode (s : String) : Escaped (percentEncode s).toList := by
  rw [percentEncode, String.toList_ofList]
  exact escaped_flatMap _

def Token.Spells (t : Token) (s : String) : Prop :=
  ∃ key value, Escaped key.toList ∧ Escaped value.toList ∧ Text.percentDecode? key = some t.key ∧
    Text.percentDecode? value = some t.value ∧ s = key ++ (if t.item then "[]" else "") ++ "=" ++ value

theorem Token.spells_render (t : Token) : t.Spells t.render :=
  ⟨percentEncode t.key, percentEncode t.value, escaped_percentEncode _, escaped_percentEncode _,
    Text.percentDecode?_percentEncode _, Text.percentDecode?_percentEncode _, rfl⟩

def Content.width : Content → Nat
  | .list ids => ids.length
  | _ => 1

theorem Token.length_ofEntry (key : String) (c : Content) : (ofEntry (key, c.param)).length = c.width := by
  cases c <;> simp [ofEntry, Content.param, Content.width]

theorem Token.length_ofEntries (merged : Contents) :
    (ofEntries (merged.map Content.param).entries).length = (merged.entries.map fun e => e.2.width).sum := by
  simp [ofEntries, OrderedMap.entries_map, List.length_flatMap, length_ofEntry, Function.comp_def]

namespace Query

-- The tokens of a text are where its ampersands part it, each spelled in its place.
structure Spelled (tokens : List Token) (query : String) (written : List String) : Prop where
  joined : query = "&".intercalate written
  apart : query.toList.splitOn '&' = written.map String.toList
  each : List.Forall₂ Token.Spells tokens written

theorem spelled_render {tokens : List Token} (given : tokens ≠ []) :
    Spelled tokens (render tokens) (tokens.map Token.render) where
  joined := rfl
  apart := by rw [splitOn_render given, List.map_map]; rfl
  each := by
    rw [List.forall₂_map_right_iff, List.forall₂_same]
    exact fun t _ => t.spells_render

theorem compile_spelled (catalog : Catalog) (conditions : List Condition) (combinator : Combinator) :
    ((collected catalog conditions).isEmpty = true ∧ (compile catalog conditions combinator).value = "") ∨
    ((collected catalog conditions).isEmpty = false ∧
      ∃ written last,
        Spelled (Token.ofEntries ((collected catalog conditions).map Content.param).entries ++
            [⟨combinatorKey, false, combinator.text⟩])
          (compile catalog conditions combinator).value (written ++ [last]) ∧
        (∃ value, last = combinatorKey ++ "=" ++ value) ∧
        (written ++ [last]).length = 1 + ((collected catalog conditions).entries.map fun e => e.2.width).sum) := by
  cases empty : (collected catalog conditions).isEmpty with
  | true =>
    left
    simp [compile_value, sent, empty, render]
  | false =>
    right
    have whole : (compile catalog conditions combinator).value =
        render (Token.ofEntries ((collected catalog conditions).map Content.param).entries ++
          [⟨combinatorKey, false, combinator.text⟩]) := by
      simp [compile_value, sent, empty]
    refine ⟨rfl, (Token.ofEntries ((collected catalog conditions).map Content.param).entries).map Token.render,
      Token.render ⟨combinatorKey, false, combinator.text⟩, ?_, ⟨percentEncode combinator.text, ?_⟩, ?_⟩
    · rw [whole, ← List.map_singleton (f := Token.render), ← List.map_append]
      exact spelled_render (by simp)
    · simp [Token.render, percentEncode_combinatorKey]
    · rw [List.length_append, List.length_map, Token.length_ofEntries, List.length_singleton, Nat.add_comm]

-- Text that looks like more parameters stays one value.
example : (compile .builtIn [⟨"c", some "ad_name", some .contains, .text "a&rpt=é"⟩] (.custom "or&x[]=1")).value =
    "ad_name=a%26rpt%3D%C3%A9&ad_name_operator=contains&logical_operator=or%26x%5B%5D%3D1" := by decide +kernel

end Query
end Criteria
