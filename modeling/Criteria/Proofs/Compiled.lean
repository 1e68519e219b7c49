import Criteria.Proofs.Completion
import Criteria.Proofs.QueryTokens

namespace Criteria
open Text (percentEncode)

def collected (catalog : Catalog) (conditions : List Condition) : Contents :=
  .merge (criteria catalog conditions).value

theorem Demand.filled_of_ofValue {k : Kind} {o : Operator} {v : Value} {d : Demand} (shaped : ofValue k o v = .ok d) :
    ∀ e ∈ d.aspects, e.2 ≠ .list [] := by
  revert shaped
  fun_cases ofValue k o v <;>
    grind [aspects, ofSelection_eq_ok_iff, ofPeriod_eq_ok_iff, ofDate_eq_ok_iff, ofText_eq_ok_iff]

theorem Criterion.filled_of_complete {catalog : Catalog} {c : Condition} {k : Criterion}
    (completed : c.complete catalog = .ok k) : ∀ e ∈ k.entries, e.2 ≠ .list [] := by
  obtain ⟨field, operator, _, _, _, _, shaped, _⟩ := Condition.complete_eq_ok_iff.mp completed
  intro e member
  obtain ⟨part, held, rfl⟩ := List.mem_map.mp member
  rcases List.mem_append.mp held with given | last
  · exact Demand.filled_of_ofValue shaped part given
  · cases List.mem_singleton.mp last
    simp

theorem collected_filled (catalog : Catalog) (conditions : List Condition) :
    ∀ e ∈ (collected catalog conditions).entries, e.2 ≠ .list [] := by
  intro e member
  obtain ⟨k, found, given⟩ := List.mem_flatMap.mp (OrderedMap.mem_of_mem_ofList member)
  obtain ⟨c, _, completed⟩ := mem_criteria.mp found
  exact Criterion.filled_of_complete completed e given

theorem Params.compile_value (catalog : Catalog) (conditions : List Condition) (combinator : Combinator) :
    (compile catalog conditions combinator).value =
      withCombinator ((collected catalog conditions).map Content.param) combinator := by
  unfold compile
  rw [Traced.value_bind]
  dsimp only
  split <;> rfl

theorem percentEncode_tag (o : Operator) : percentEncode o.tag = o.tag := by cases o <;> decide +kernel

theorem percentEncode_flagText (b : Bool) : percentEncode (flagText b) = flagText b := by cases b <;> decide +kernel

theorem percentEncode_combinatorKey : percentEncode combinatorKey = combinatorKey := by decide +kernel

theorem Combinator.written_eq (k : Combinator) : k.written = percentEncode k.text := by
  cases k with
  | custom s => rfl
  | and => decide +kernel
  | or => decide +kernel

theorem Content.written_eq (key : String) (c : Content) :
    c.written key = (Token.ofEntry (key, c.param)).map Token.render := by
  cases c with
  | list ids =>
    have brackets : "[]" ++ "=" = "[]=" := rfl
    simp [written, param, Token.ofEntry, Token.render, String.append_assoc, ← brackets]
  | flag b => simp [written, param, Token.ofEntry, Token.render, percentEncode_flagText]
  | text s => simp [written, param, Token.ofEntry, Token.render]
  | tag o => simp [written, param, Token.ofEntry, Token.render, percentEncode_tag]

theorem Content.written_ne_nil {key : String} {c : Content} (filled : c ≠ .list []) : c.written key ≠ [] := by
  cases c <;> simp_all [written]

namespace Query

-- The tokens of a map of entries, with the combinator's at their end.
def sent (merged : Contents) (combinator : Combinator) : List Token :=
  if merged.isEmpty then []
  else Token.ofEntries (merged.map Content.param).entries ++ [⟨combinatorKey, false, combinator.text⟩]

theorem written_eq (merged : Contents) :
    written merged = (Token.ofEntries (merged.map Content.param).entries).map Token.render := by
  simp [written, Token.ofEntries, OrderedMap.entries_map, List.map_flatMap, List.flatMap_map, Content.written_eq]

theorem isEmpty_written {merged : Contents} (filled : ∀ e ∈ merged.entries, e.2 ≠ .list []) :
    (written merged).isEmpty = merged.isEmpty := by
  unfold written OrderedMap.isEmpty
  cases entries : merged.entries with
  | nil => rfl
  | cons e es =>
    have given : e.2.written e.1 ≠ [] := Content.written_ne_nil (filled e (by simp [entries]))
    simp [given]

theorem withCombinator_written {merged : Contents} (filled : ∀ e ∈ merged.entries, e.2 ≠ .list [])
    (combinator : Combinator) :
    withCombinator (written merged) combinator = (sent merged combinator).map Token.render := by
  rw [withCombinator, isEmpty_written filled, sent]
  cases empty : merged.isEmpty with
  | true =>
    have nothing : (written merged).isEmpty = true := by rw [isEmpty_written filled, empty]
    simpa using nothing
  | false => simp [written_eq, Token.render, percentEncode_combinatorKey, Combinator.written_eq]

theorem compile_value (catalog : Catalog) (conditions : List Condition) (combinator : Combinator) :
    (compile catalog conditions combinator).value = render (sent (collected catalog conditions) combinator) := by
  rw [render, ← withCombinator_written (collected_filled catalog conditions)]
  unfold compile
  rw [Traced.value_bind]
  dsimp only
  split <;> rfl

theorem tokens?_compile (catalog : Catalog) (conditions : List Condition) (combinator : Combinator) :
    tokens? (compile catalog conditions combinator).value = some (sent (collected catalog conditions) combinator) := by
  rw [compile_value, tokens?_render]

end Query
end Criteria
