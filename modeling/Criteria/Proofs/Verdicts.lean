import Criteria.Proofs.Completion
import Mathlib.Data.List.TakeWhile

namespace Criteria

namespace Text

theorem trimChars_eq_nil_iff {cs : List Char} : trimChars cs = [] ↔ ∀ c ∈ cs, isBlank c = true := by
  constructor
  · intro nothing
    obtain ⟨p, q, before, behind, whole⟩ := trimChars_split cs
    rw [nothing, List.append_nil] at whole
    rw [whole]
    exact fun c member => (List.mem_append.mp member).elim (before c) (behind c)
  · intro blank
    have dropped : dropBlanks cs = [] := List.dropWhile_eq_nil_iff.mpr blank
    rw [trimChars, dropped]
    rfl

theorem trim_eq_empty_iff {s : String} : trim s = "" ↔ ∀ c ∈ s.toList, isBlank c = true := by
  rw [← trimChars_eq_nil_iff, trim, String.ofList_eq_empty_iff]

end Text

namespace Value

inductive Vacant : Kind → Operator → Value → Prop where
  | absent {k : Kind} {o : Operator} : Vacant k o .absent
  | selection {o : Operator} : Vacant .multiSelect o (.selection [])
  | date : Vacant .date .equals (.text "")
  | period {p : Period} (half : p.start = "" ∨ p.stop = "") : Vacant .date .between (.period p)
  | few {ids : List String} (short : ids.length ≤ 1) : Vacant .date .between (.selection ids)
  | pair {start stop : String} (half : start = "" ∨ stop = "") : Vacant .date .between (.selection [start, stop])
  | text {o : Operator} {s : String} (blank : ∀ c ∈ s.toList, Text.isBlank c = true) : Vacant .text o (.text s)

inductive Fits : Kind → Operator → Value → Prop where
  | selection {o : Operator} {ids : List String} : Fits .multiSelect o (.selection ids)
  | flag {o : Operator} {b : Bool} : Fits .boolean o (.flag b)
  | date {s : String} : Fits .date .equals (.text s)
  | period {p : Period} : Fits .date .between (.period p)
  | pair {start stop : String} : Fits .date .between (.selection [start, stop])
  | text {o : Operator} {s : String} : Fits .text o (.text s)

-- A period with one end stays vacant where a period is asked for, and so it does as a pair.

theorem vacant_of_half {k : Kind} {o : Operator} {p : Period} (fits : Fits k o (.period p))
    (half : p.start = "" ∨ p.stop = "") : Vacant k o (.period p) := by
  cases fits
  exact .period half

theorem vacant_of_few {o : Operator} {ids : List String} (fits : Fits .date o (.selection ids))
    (half : ids.length ≤ 1 ∨ "" ∈ ids) : Vacant .date o (.selection ids) := by
  cases fits
  rcases half with short | blank
  · exact .few short
  · refine .pair ?_
    simpa [eq_comm] using blank

end Value

namespace Demand
variable {k : Kind} {o : Operator} {v : Value}

theorem ofValue_of_vacant (legal : k.supports o = true) (vacant : v.Vacant k o) :
    ofValue k o v = .error .emptyValue := by
  cases vacant with
  | absent => simp [ofValue]
  | selection => cases o <;> rfl
  | date => rfl
  | period half => simp [ofValue, ofPeriod, half]
  | @few ids short =>
    cases ids with
    | nil => rfl
    | cons id rest =>
      obtain rfl : rest = [] := by simpa using short
      rfl
  | pair half => simp [ofValue, ofPeriod, half]
  | text blank =>
    cases o with
    | contains => simp [ofValue, ofText, Text.trim_eq_empty_iff.mpr blank]
    | _ => cases legal

theorem exists_ofValue_of_fits (legal : k.supports o = true) (given : ¬ v.Vacant k o) (fits : v.Fits k o) :
    ∃ d, ofValue k o v = .ok d := by
  cases fits with
  | @selection _ ids =>
    have filled : ids ≠ [] := by
      rintro rfl
      exact given .selection
    cases o with
    | isIn => exact ⟨_, ofSelection_eq_ok_iff.mpr ⟨filled, rfl⟩⟩
    | notIn => exact ⟨_, ofSelection_eq_ok_iff.mpr ⟨filled, rfl⟩⟩
    | _ => cases legal
  | flag =>
    cases o with
    | equals => exact ⟨_, rfl⟩
    | _ => cases legal
  | @date s =>
    have filled : s ≠ "" := by
      rintro rfl
      exact given .date
    exact ⟨_, ofDate_eq_ok_iff.mpr ⟨filled, rfl⟩⟩
  | @period p =>
    have filled : p.start ≠ "" ∧ p.stop ≠ "" := not_or.mp fun half => given (.period half)
    exact ⟨_, ofPeriod_eq_ok_iff.mpr ⟨filled.1, filled.2, rfl⟩⟩
  | @pair start stop =>
    have filled : start ≠ "" ∧ stop ≠ "" := not_or.mp fun half => given (.pair half)
    exact ⟨_, ofPeriod_eq_ok_iff.mpr ⟨filled.1, filled.2, rfl⟩⟩
  | @text _ s =>
    have filled : Text.trim s ≠ "" := fun blank => given (.text (Text.trim_eq_empty_iff.mp blank))
    cases o with
    | contains => exact ⟨_, ofText_eq_ok_iff.mpr ⟨filled, rfl⟩⟩
    | _ => cases legal

theorem ofValue_of_not_fits (given : ¬ v.Vacant k o) (unfit : ¬ v.Fits k o) :
    ofValue k o v = .error .unfitValue := by
  fun_cases ofValue k o v with
  | case1 => exact absurd .absent given
  | case2 => exact absurd .selection unfit
  | case3 => exact absurd .selection unfit
  | case4 => exact absurd .selection given
  | case5 => exact absurd .flag unfit
  | case6 => exact absurd .date unfit
  | case7 => exact absurd .period unfit
  | case8 => exact absurd .pair unfit
  | case9 => exact absurd (.few (Nat.zero_le 1)) given
  | case10 => exact absurd (.few (Nat.le_refl 1)) given
  | case11 => exact absurd .text unfit
  | case12 => rfl

end Demand

namespace Condition

def omission? (catalog : Catalog) (c : Condition) : Option Omission :=
  match c.complete catalog with
  | .ok _ => none
  | .error reason => some reason

theorem omission?_eq_some_iff {catalog : Catalog} {c : Condition} {reason : Omission} :
    c.omission? catalog = some reason ↔ c.complete catalog = .error reason := by
  unfold omission?
  cases c.complete catalog <;> simp

theorem omission?_eq_none_iff {catalog : Catalog} {c : Condition} :
    c.omission? catalog = none ↔ c.isComplete catalog = true := by
  unfold omission? isComplete
  cases c.complete catalog <;> simp [Except.isOk, Except.toBool]

structure Asks (catalog : Catalog) (c : Condition) (f : Field) (o : Operator) : Prop where
  listed : f ∈ catalog.fields
  named : c.field = some f.id
  chosen : c.operator = some o
  offered : o ∈ f.operators

variable {catalog : Catalog} {c : Condition} {f : Field} {o : Operator}

theorem Asks.legal (asks : c.Asks catalog f o) : f.kind.supports o = true :=
  (catalog.sound f asks.listed).supported o asks.offered

theorem Asks.found (asks : c.Asks catalog f o) : catalog.find? f.id = some f :=
  Catalog.find?_eq_some_iff.mpr ⟨asks.listed, rfl⟩

theorem Asks.complete_eq (asks : c.Asks catalog f o) :
    c.complete catalog = (Demand.ofValue f.kind o c.value).map fun demand => ⟨c.id, f.id, demand⟩ := by
  have accepted := Field.accepts_iff.mpr asks.offered
  simp [complete, asks.named, asks.found, asks.chosen, accepted]

-- Each rule says all that it needs, so that exactly one applies.
inductive Verdict (catalog : Catalog) (c : Condition) : Option Omission → Prop where
  | noField (unset : c.field = none) : Verdict catalog c (some .noField)
  | unknownField {id : String} (named : c.field = some id) (unknown : ∀ f ∈ catalog.fields, f.id ≠ id) :
      Verdict catalog c (some .unknownField)
  | noOperator {f : Field} (listed : f ∈ catalog.fields) (named : c.field = some f.id) (unset : c.operator = none) :
      Verdict catalog c (some .noOperator)
  | illegalOperator {f : Field} {o : Operator} (listed : f ∈ catalog.fields) (named : c.field = some f.id)
      (chosen : c.operator = some o) (notOffered : o ∉ f.operators) : Verdict catalog c (some .illegalOperator)
  | emptyValue {f : Field} {o : Operator} (asks : c.Asks catalog f o) (vacant : c.value.Vacant f.kind o) :
      Verdict catalog c (some .emptyValue)
  | complete {f : Field} {o : Operator} (asks : c.Asks catalog f o) (given : ¬ c.value.Vacant f.kind o)
      (fits : c.value.Fits f.kind o) : Verdict catalog c none
  | unfitValue {f : Field} {o : Operator} (asks : c.Asks catalog f o) (given : ¬ c.value.Vacant f.kind o)
      (unfit : ¬ c.value.Fits f.kind o) : Verdict catalog c (some .unfitValue)

theorem omission?_of_verdict {verdict : Option Omission} (ruled : c.Verdict catalog verdict) :
    c.omission? catalog = verdict := by
  cases ruled with
  | noField unset => simp [omission?, Condition.complete, unset]
  | @unknownField id named unknown =>
    have absent : catalog.find? id = none := by
      rw [Option.eq_none_iff_forall_ne_some]
      intro f found
      obtain ⟨listed, same⟩ := Catalog.find?_eq_some_iff.mp found
      exact unknown f listed same
    simp [omission?, Condition.complete, named, absent]
  | @noOperator f listed named unset =>
    have found : catalog.find? f.id = some f := Catalog.find?_eq_some_iff.mpr ⟨listed, rfl⟩
    simp [omission?, Condition.complete, named, found, unset]
  | @illegalOperator f o listed named chosen notOffered =>
    have found : catalog.find? f.id = some f := Catalog.find?_eq_some_iff.mpr ⟨listed, rfl⟩
    have refused : ¬ f.accepts o = true := fun accepted => notOffered (Field.accepts_iff.mp accepted)
    simp [omission?, Condition.complete, named, found, chosen, refused]
  | emptyValue asks vacant =>
    rw [omission?_eq_some_iff, asks.complete_eq, Demand.ofValue_of_vacant asks.legal vacant]
    rfl
  | complete asks given fits =>
    obtain ⟨demand, shaped⟩ := Demand.exists_ofValue_of_fits asks.legal given fits
    rw [omission?_eq_none_iff, isComplete, asks.complete_eq, shaped]
    rfl
  | unfitValue asks given unfit =>
    rw [omission?_eq_some_iff, asks.complete_eq, Demand.ofValue_of_not_fits given unfit]
    rfl

theorem exists_verdict (catalog : Catalog) (c : Condition) : ∃ verdict, c.Verdict catalog verdict := by
  cases named : c.field with
  | none => exact ⟨_, .noField named⟩
  | some id =>
    by_cases known : ∃ f ∈ catalog.fields, f.id = id
    · obtain ⟨f, listed, rfl⟩ := known
      cases chosen : c.operator with
      | none => exact ⟨_, .noOperator listed named chosen⟩
      | some o =>
        by_cases offered : o ∈ f.operators
        · have asks : c.Asks catalog f o := ⟨listed, named, chosen, offered⟩
          by_cases vacant : c.value.Vacant f.kind o
          · exact ⟨_, .emptyValue asks vacant⟩
          · by_cases fits : c.value.Fits f.kind o
            · exact ⟨_, .complete asks vacant fits⟩
            · exact ⟨_, .unfitValue asks vacant fits⟩
        · exact ⟨_, .illegalOperator listed named chosen offered⟩
    · exact ⟨_, .unknownField named fun f listed same => known ⟨f, listed, same⟩⟩

theorem omission?_eq_iff {verdict : Option Omission} : c.omission? catalog = verdict ↔ c.Verdict catalog verdict := by
  constructor
  · rintro rfl
    obtain ⟨verdict, ruled⟩ := exists_verdict catalog c
    rwa [omission?_of_verdict ruled]
  · exact omission?_of_verdict

theorem isComplete_iff_asks : c.isComplete catalog = true ↔
    ∃ f o, c.Asks catalog f o ∧ ¬ c.value.Vacant f.kind o ∧ c.value.Fits f.kind o := by
  rw [← omission?_eq_none_iff, omission?_eq_iff]
  constructor
  · intro ruled
    cases ruled with
    | complete asks given fits => exact ⟨_, _, asks, given, fits⟩
  · rintro ⟨f, o, asks, given, fits⟩
    exact .complete asks given fits

theorem equals_offered (listed : f ∈ catalog.fields) (flags : f.kind = .boolean) : Operator.equals ∈ f.operators := by
  have sound := catalog.sound f listed
  obtain ⟨o, offered⟩ := List.exists_mem_of_ne_nil _ sound.offers
  have legal := sound.supported o offered
  rw [flags, Kind.supports_iff] at legal
  rwa [List.mem_singleton.mp legal] at offered

theorem complete_iff_verdict (catalog : Catalog) (c : Condition) :
    (∀ reason, c.complete catalog = .error reason ↔ c.Verdict catalog (some reason)) ∧
    ((∃ k, c.complete catalog = .ok k) ↔ c.Verdict catalog none) ∧
    (∀ f ∈ catalog.fields, f.kind = .boolean → c.field = some f.id → c.operator = some .equals →
      ∀ b, c.value = .flag b → c.isComplete catalog = true) ∧
    (∀ p : Period, c.value = .period p → p.start = "" ∨ p.stop = "" → c.isComplete catalog = false) ∧
    ∀ f ∈ catalog.fields, f.kind = .date → c.field = some f.id →
      ∀ ids, c.value = .selection ids → ids.length ≤ 1 ∨ "" ∈ ids → c.isComplete catalog = false := by
  refine ⟨fun reason => ?_, ?_, ?_, ?_, ?_⟩
  · rw [← omission?_eq_some_iff, omission?_eq_iff]
  · rw [← isComplete_iff, ← omission?_eq_none_iff, omission?_eq_iff]
  · intro f listed flags named chosen b entered
    have asks : c.Asks catalog f .equals := ⟨listed, named, chosen, equals_offered listed flags⟩
    refine isComplete_iff_asks.mpr ⟨f, .equals, asks, ?_, ?_⟩
    · rw [entered, flags]
      nofun
    · rw [entered, flags]
      exact .flag
  · intro p entered half
    rw [Bool.eq_false_iff, ne_eq, isComplete_iff_asks, entered]
    rintro ⟨f, o, _, given, fits⟩
    exact given (Value.vacant_of_half fits half)
  · intro f listed dates named ids entered half
    rw [Bool.eq_false_iff, ne_eq, isComplete_iff_asks, entered]
    rintro ⟨g, o, asks, given, fits⟩
    have same : g.id = f.id := Option.some.inj (asks.named.symm.trans named)
    have found := asks.found
    rw [same, Catalog.find?_eq_some_iff.mpr ⟨listed, rfl⟩] at found
    cases found
    rw [dates] at given fits
    exact given (Value.vacant_of_few fits half)

-- The answer no, and a period without its end in both spellings.

def noAnswer : Condition := ⟨"c1", some "rpt", some .equals, .flag false⟩

def openPeriod : Condition := ⟨"c2", some "created_at", some .between, .period ⟨"2024-01-01", ""⟩⟩

def openPair : Condition := ⟨"c3", some "created_at", some .between, .selection ["2024-01-01", ""]⟩

theorem complete_iff_verdict_halves :
    noAnswer.isComplete .builtIn = true ∧
    openPeriod.isComplete .builtIn = false ∧
    openPair.isComplete .builtIn = false ∧
    openPair.Verdict .builtIn (some .emptyValue) := by
  obtain ⟨_, _, flags, _⟩ := complete_iff_verdict .builtIn noAnswer
  obtain ⟨_, _, _, periods, _⟩ := complete_iff_verdict .builtIn openPeriod
  obtain ⟨reasons, _, _, _, pairs⟩ := complete_iff_verdict .builtIn openPair
  refine ⟨?_, periods _ rfl (.inr rfl), ?_, (reasons _).mp (by decide +kernel)⟩
  · exact flags ⟨"rpt", "Repeat purchase", .boolean, [.equals]⟩ (by decide) rfl rfl rfl false rfl
  · exact pairs ⟨"created_at", "Created at", .date, [.equals, .between]⟩ (by decide) rfl rfl _ rfl (.inr (by decide))

end Condition
end Criteria
