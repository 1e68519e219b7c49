import Criteria.Proofs.Verdicts

namespace Criteria

namespace Text

-- `t` without the blanks around it is all there is to `s`.
structure Core (s t : String) : Prop where
  between : ∃ p q : String, (∀ c ∈ p.toList, isBlank c = true) ∧ (∀ c ∈ q.toList, isBlank c = true) ∧ s = p ++ t ++ q
  filled : t ≠ ""
  first : ∀ c ∈ t.toList.head?, isBlank c = false
  last : ∀ c ∈ t.toList.getLast?, isBlank c = false

theorem dropBlanks_append {p cs : List Char} (blank : ∀ c ∈ p, isBlank c = true) (filled : cs ≠ [])
    (first : ∀ c ∈ cs.head?, isBlank c = false) : dropBlanks (p ++ cs) = cs := by
  obtain ⟨c, r, rfl⟩ := List.exists_cons_of_ne_nil filled
  rw [dropBlanks, List.dropWhile_append_of_pos blank]
  exact List.dropWhile_cons_of_neg (by simp [first c rfl])

theorem core_trim {s : String} (filled : trim s ≠ "") : Core s (trim s) where
  between := by
    obtain ⟨p, q, before, behind, whole⟩ := trimChars_split s.toList
    refine ⟨.ofList p, .ofList q, by simpa using before, by simpa using behind, ?_⟩
    rw [trim, ← String.ofList_append, ← String.ofList_append, ← whole, String.ofList_toList]
  filled := filled
  first c begins := by
    rw [trim, String.toList_ofList] at begins
    obtain ⟨r, whole⟩ := List.head?_eq_some_iff.mp begins
    exact trimChars_head s.toList c r whole
  last c ends := by
    rw [trim, String.toList_ofList, ← List.head?_reverse] at ends
    obtain ⟨r, whole⟩ := List.head?_eq_some_iff.mp ends
    exact trimChars_last s.toList c r whole

theorem Core.eq_trim {s t : String} (core : Core s t) : t = trim s := by
  obtain ⟨⟨p, q, before, behind, rfl⟩, filled, first, last⟩ := core
  have nonempty : t.toList ≠ [] := by simpa using filled
  obtain ⟨d, r, whole⟩ := List.exists_cons_of_ne_nil nonempty
  have front : dropBlanks (p.toList ++ (t.toList ++ q.toList)) = t.toList ++ q.toList := by
    refine dropBlanks_append before (by simp [nonempty]) fun c begins => first c ?_
    rw [whole] at begins ⊢
    exact begins
  have back : dropBlanks (t.toList ++ q.toList).reverse = t.toList.reverse := by
    rw [List.reverse_append]
    refine dropBlanks_append (by simpa using behind) (by simpa using nonempty) fun c begins => ?_
    rw [List.head?_reverse] at begins
    exact last c begins
  rw [trim, trimChars, String.toList_append, String.toList_append, List.append_assoc, front, back,
    List.reverse_reverse, String.ofList_toList]

theorem core_iff {s t : String} : Core s t ↔ trim s ≠ "" ∧ trim s = t := by
  constructor
  · intro core
    have same := core.eq_trim
    exact ⟨same ▸ core.filled, same.symm⟩
  · rintro ⟨filled, rfl⟩
    exact core_trim filled

end Text

namespace Demand

inductive Of : Kind → Operator → Value → Demand → Prop where
  | anyOf {ids : List String} (chosen : ids ≠ []) : Of .multiSelect .isIn (.selection ids) (.anyOf ids)
  | noneOf {ids : List String} (chosen : ids ≠ []) : Of .multiSelect .notIn (.selection ids) (.noneOf ids)
  | flag {b : Bool} : Of .boolean .equals (.flag b) (.flag b)
  | onDate {date : String} (filled : date ≠ "") : Of .date .equals (.text date) (.onDate date)
  | period {start stop : String} (begins : start ≠ "") (ends : stop ≠ "") :
      Of .date .between (.period ⟨start, stop⟩) (.between start stop)
  | pair {start stop : String} (begins : start ≠ "") (ends : stop ≠ "") :
      Of .date .between (.selection [start, stop]) (.between start stop)
  | contains {s t : String} (core : Text.Core s t) : Of .text .contains (.text s) (.contains t)

variable {k : Kind} {o : Operator} {v : Value} {d : Demand}

theorem Of.ofValue_eq (made : Of k o v d) : ofValue k o v = .ok d := by
  cases made with
  | anyOf chosen => exact ofSelection_eq_ok_iff.mpr ⟨chosen, rfl⟩
  | noneOf chosen => exact ofSelection_eq_ok_iff.mpr ⟨chosen, rfl⟩
  | flag => rfl
  | onDate filled => exact ofDate_eq_ok_iff.mpr ⟨filled, rfl⟩
  | period begins ends => exact ofPeriod_eq_ok_iff.mpr ⟨begins, ends, rfl⟩
  | pair begins ends => exact ofPeriod_eq_ok_iff.mpr ⟨begins, ends, rfl⟩
  | contains core =>
    obtain ⟨filled, rfl⟩ := Text.core_iff.mp core
    exact ofText_eq_ok_iff.mpr ⟨filled, rfl⟩

theorem of_of_ofValue (made : ofValue k o v = .ok d) : Of k o v d := by
  revert made
  fun_cases ofValue k o v with
  | case2 ids =>
    intro made
    obtain ⟨chosen, rfl⟩ := ofSelection_eq_ok_iff.mp made
    exact .anyOf chosen
  | case3 ids =>
    intro made
    obtain ⟨chosen, rfl⟩ := ofSelection_eq_ok_iff.mp made
    exact .noneOf chosen
  | case5 b =>
    rintro ⟨⟩
    exact .flag
  | case6 date =>
    intro made
    obtain ⟨filled, rfl⟩ := ofDate_eq_ok_iff.mp made
    exact .onDate filled
  | case7 p =>
    intro made
    obtain ⟨begins, ends, rfl⟩ := ofPeriod_eq_ok_iff.mp made
    exact .period begins ends
  | case8 start stop =>
    intro made
    obtain ⟨begins, ends, rfl⟩ := ofPeriod_eq_ok_iff.mp made
    exact .pair begins ends
  | case11 s =>
    intro made
    obtain ⟨filled, rfl⟩ := ofText_eq_ok_iff.mp made
    exact .contains (Text.core_trim filled)
  | _ =>
    intro made
    cases made

theorem ofValue_eq_ok_iff : ofValue k o v = .ok d ↔ Of k o v d := ⟨of_of_ofValue, Of.ofValue_eq⟩

end Demand

namespace Condition
variable {catalog : Catalog} {c : Condition}

theorem complete_eq_ok_iff_asks {k : Criterion} : c.complete catalog = .ok k ↔
    ∃ f, c.Asks catalog f k.demand.operator ∧ k.id = c.id ∧ k.field = f.id ∧
      Demand.Of f.kind k.demand.operator c.value k.demand := by
  constructor
  · intro completed
    obtain ⟨f, o, named, known, chosen, accepted, made, same⟩ := complete_eq_ok_iff.mp completed
    obtain ⟨listed, field⟩ := Catalog.find?_eq_some_iff.mp known
    obtain rfl := Demand.operator_ofValue made
    exact ⟨f, ⟨listed, field ▸ named, chosen, Field.accepts_iff.mp accepted⟩, same.symm, field.symm,
      Demand.ofValue_eq_ok_iff.mp made⟩
  · rintro ⟨f, asks, same, field, made⟩
    rw [asks.complete_eq, Demand.ofValue_eq_ok_iff.mpr made, ← same, ← field]
    rfl

theorem accepts_iff_completes {f : Field} (listed : f ∈ catalog.fields) (id : String) (o : Operator) :
    f.accepts o = true ↔ ∃ v, (⟨id, some f.id, some o, v⟩ : Condition).isComplete catalog = true := by
  rw [Field.accepts_iff]
  constructor
  · intro offered
    have made := Demand.ofValue_sample ((catalog.sound f listed).supported o offered)
    have asks : (⟨id, some f.id, some o, .sample f.kind o⟩ : Condition).Asks catalog f o := ⟨listed, rfl, rfl, offered⟩
    refine ⟨.sample f.kind o, isComplete_iff.mpr ⟨⟨id, f.id, .sample f.kind o⟩, ?_⟩⟩
    rw [asks.complete_eq, made]
    rfl
  · rintro ⟨v, complete⟩
    obtain ⟨g, p, asks, _⟩ := isComplete_iff_asks.mp complete
    have found := asks.found
    rw [← Option.some.inj asks.named, Catalog.find?_eq_some_iff.mpr ⟨listed, rfl⟩] at found
    obtain rfl := Option.some.inj found
    obtain rfl := Option.some.inj asks.chosen
    exact asks.offered

theorem complete_eq_ok_iff_of (catalog : Catalog) (c : Condition) :
    (∀ k, c.complete catalog = .ok k ↔
      ∃ f ∈ catalog.fields, c.field = some f.id ∧ c.operator = some k.demand.operator ∧
        f.accepts k.demand.operator = true ∧ k.id = c.id ∧ k.field = f.id ∧
        Demand.Of f.kind k.demand.operator c.value k.demand) ∧
    (∀ s t u : String, Text.Core s t → Text.Core s u → t = u) ∧
    ∀ f ∈ catalog.fields, ∀ o, f.accepts o = true ↔
      ∃ v, ({ c with field := some f.id, operator := some o, value := v } : Condition).isComplete catalog = true := by
  refine ⟨fun k => ?_, fun s t u core other => ?_, fun f listed o => accepts_iff_completes listed c.id o⟩
  · rw [complete_eq_ok_iff_asks]
    refine exists_congr fun f => ⟨fun parts => ?_, fun parts => ?_⟩
    · obtain ⟨⟨listed, named, chosen, offered⟩, rest⟩ := parts
      exact ⟨listed, named, chosen, Field.accepts_iff.mpr offered, rest⟩
    · obtain ⟨listed, named, chosen, accepted, rest⟩ := parts
      exact ⟨⟨listed, named, chosen, Field.accepts_iff.mp accepted⟩, rest⟩
  · rw [core.eq_trim, other.eq_trim]

end Condition
end Criteria
