import Criteria.Catalog
import Mathlib.Data.List.Nodup
import Mathlib.Tactic.Tauto

namespace Criteria

-- At position `i` stands an operator that the kind does not support, or that stands in `before` or further up.
def Operator.Misplaced (kind : Kind) (before os : List Operator) (i : Nat) : Prop :=
  ∃ o, os[i]? = some o ∧ (kind.supports o = false ∨ o ∈ before ++ os.take i)

namespace Operator
variable {kind : Kind} {before rest : List Operator} {o : Operator} {i : Nat}

theorem misplaced_zero : Misplaced kind before (o :: rest) 0 ↔ kind.supports o = false ∨ o ∈ before := by
  simp [Misplaced]

theorem misplaced_succ : Misplaced kind before (o :: rest) (i + 1) ↔ Misplaced kind (o :: before) rest i := by
  simp only [Misplaced, List.getElem?_cons_succ, List.take_succ_cons, List.mem_append, List.mem_cons]
  refine exists_congr fun p => and_congr_right fun _ => ?_
  tauto

theorem first_misplaced_succ : (∀ j < i + 1, ¬ Misplaced kind before (o :: rest) j) ↔
    (kind.supports o = true ∧ o ∉ before) ∧ ∀ j < i, ¬ Misplaced kind (o :: before) rest j := by
  rw [Nat.forall_lt_succ_left, misplaced_zero]
  simp [misplaced_succ]

end Operator

namespace Field

-- A row that no table has below rows with the ids `above`.
def Faulty (f : Field) (above : List String) : Prop :=
  f.operators = [] ∨ (∃ o ∈ f.operators, f.kind.supports o = false) ∨ ¬ f.operators.Nodup ∨ f.id ∈ above

inductive Fault (f : Field) (above : List String) : Error → Prop where
  | noOperators (nothing : f.operators = []) : f.Fault above (.noOperators f.id)
  | unsupported {i : Nat} {o : Operator} (offered : f.operators[i]? = some o)
      (first : ∀ j < i, ¬ Operator.Misplaced f.kind [] f.operators j) (outside : f.kind.supports o = false) :
      f.Fault above (.unsupportedOperator f.id o f.kind)
  | repeated {i : Nat} {o : Operator} (offered : f.operators[i]? = some o)
      (first : ∀ j < i, ¬ Operator.Misplaced f.kind [] f.operators j) (legal : f.kind.supports o = true)
      (again : o ∈ f.operators.take i) : f.Fault above (.repeatedOperator f.id o)
  | duplicate (sound : f.Sound) (taken : f.id ∈ above) : f.Fault above (.duplicateField f.id)

end Field

namespace Catalog
open Operator

theorem operatorFault?_eq_some_iff {id : String} {kind : Kind} {before os : List Operator} {e : Error} :
    operatorFault? id kind before os = some e ↔ ∃ i o, os[i]? = some o ∧
      (∀ j < i, ¬ Misplaced kind before os j) ∧
      (kind.supports o = false ∧ .unsupportedOperator id o kind = e ∨
        kind.supports o = true ∧ o ∈ before ++ os.take i ∧ .repeatedOperator id o = e) := by
  induction os generalizing before with
  | nil => simp [operatorFault?]
  | cons o rest ih =>
    unfold operatorFault?
    rw [← Nat.or_exists_add_one]
    simp only [first_misplaced_succ]
    by_cases outside : kind.supports o = false
    · simp [outside]
    · have legal : kind.supports o = true := by simpa using outside
      by_cases seen : o ∈ before
      · simp [legal, seen]
      · simp [legal, seen, ih, or_left_comm]

theorem fieldFault?_eq_some_iff {f : Field} {e : Error} : fieldFault? f = some e ↔ f.Fault [] e := by
  unfold fieldFault?
  constructor
  · intro found
    split at found
    · rename_i nothing
      cases found
      exact .noOperators nothing
    · obtain ⟨i, o, offered, first, ⟨outside, rfl⟩ | ⟨legal, again, rfl⟩⟩ := operatorFault?_eq_some_iff.mp found
      · exact .unsupported offered first outside
      · exact .repeated offered first legal again
  · intro fault
    cases fault with
    | noOperators nothing => rw [if_pos nothing]
    | unsupported offered first outside =>
      rw [if_neg (List.ne_nil_of_mem (List.mem_of_getElem? offered))]
      exact operatorFault?_eq_some_iff.mpr ⟨_, _, offered, first, .inl ⟨outside, rfl⟩⟩
    | repeated offered first legal again =>
      rw [if_neg (List.ne_nil_of_mem (List.mem_of_getElem? offered))]
      exact operatorFault?_eq_some_iff.mpr ⟨_, _, offered, first, .inr ⟨legal, again, rfl⟩⟩
    | duplicate _ taken => simp at taken

end Catalog

namespace Field
variable {f : Field} {above : List String} {e : Error}

theorem faulty_iff : f.Faulty above ↔ ¬ (f.Sound ∧ f.id ∉ above) := by
  constructor
  · rintro faulty ⟨⟨offers, supported, distinct⟩, fresh⟩
    rcases faulty with nothing | ⟨o, offered, outside⟩ | twice | taken
    · exact offers nothing
    · rw [supported o offered] at outside
      cases outside
    · exact twice distinct
    · exact fresh taken
  · intro refused
    by_contra clean
    simp only [Faulty, not_or, not_exists, not_and, not_not] at clean
    exact refused ⟨⟨clean.1, by simpa using clean.2.1, clean.2.2.1⟩, clean.2.2.2⟩

theorem not_mem_take {os : List Operator} (distinct : os.Nodup) {i : Nat} {o : Operator} (offered : os[i]? = some o) :
    o ∉ os.take i := by
  obtain ⟨within, rfl⟩ := List.getElem?_eq_some_iff.mp offered
  have later : os[i] ∈ os.drop i := by
    rw [List.drop_eq_getElem_cons within]
    exact List.mem_cons_self
  exact fun again => List.disjoint_take_drop distinct (Nat.le_refl i) again later

theorem Sound.fault_iff (sound : f.Sound) : f.Fault above e ↔ f.id ∈ above ∧ .duplicateField f.id = e := by
  constructor
  · intro fault
    cases fault with
    | noOperators nothing => exact absurd nothing sound.offers
    | unsupported offered _ outside =>
      rw [sound.supported _ (List.mem_of_getElem? offered)] at outside
      cases outside
    | repeated offered _ _ again => exact absurd again (not_mem_take sound.distinct offered)
    | duplicate _ taken => exact ⟨taken, rfl⟩
  · rintro ⟨taken, rfl⟩
    exact .duplicate sound taken

theorem Fault.unsound_iff (unsound : ¬ f.Sound) : f.Fault above e ↔ f.Fault [] e := by
  constructor <;> intro fault <;> cases fault with
  | noOperators nothing => exact .noOperators nothing
  | unsupported offered first outside => exact .unsupported offered first outside
  | repeated offered first legal again => exact .repeated offered first legal again
  | duplicate sound => exact absurd sound unsound

theorem fieldFault?_eq_none_iff : Catalog.fieldFault? f = none ↔ f.Sound := by
  constructor
  · exact Catalog.sound_of_fieldFault?
  · intro sound
    rw [Option.eq_none_iff_forall_ne_some]
    intro e found
    have fault := Catalog.fieldFault?_eq_some_iff.mp found
    simp [sound.fault_iff] at fault

theorem exists_fault_of_unsound (unsound : ¬ f.Sound) : ∃ e, f.Fault above e := by
  obtain ⟨e, found⟩ := Option.ne_none_iff_exists'.mp (mt fieldFault?_eq_none_iff.mp unsound)
  exact ⟨e, (Fault.unsound_iff unsound).mpr (Catalog.fieldFault?_eq_some_iff.mp found)⟩

theorem faulty_iff_fault : f.Faulty above ↔ ∃ e, f.Fault above e := by
  rw [faulty_iff]
  by_cases sound : f.Sound
  · simp [sound, sound.fault_iff]
  · simp only [sound, false_and, not_false_eq_true, true_iff]
    exact exists_fault_of_unsound sound

end Field

namespace Catalog

theorem add_eq_error_iff {c : Catalog} {f : Field} {e : Error} :
    c.add f = .error e ↔ f.Fault (c.fields.map Field.id) e := by
  by_cases sound : f.Sound
  · have taken : f.id ∈ c.fields.map Field.id ↔ c.contains f.id = true := by
      rw [contains_iff, List.mem_map]
    rw [sound.fault_iff, taken]
    unfold add
    split
    · rename_i e found
      rw [Field.fieldFault?_eq_none_iff.mpr sound] at found
      cases found
    · split <;> simp [*]
  · rw [Field.Fault.unsound_iff sound, ← fieldFault?_eq_some_iff]
    unfold add
    split
    · simp [*]
    · rename_i nothing
      exact absurd (Field.fieldFault?_eq_none_iff.mp nothing) sound

def FaultyAt (above : List String) (fields : List Field) (p : Nat) : Prop :=
  ∃ f, fields[p]? = some f ∧ f.Faulty (above ++ (fields.take p).map Field.id)

def FaultAt (above : List String) (fields : List Field) (p : Nat) (e : Error) : Prop :=
  ∃ f, fields[p]? = some f ∧ f.Fault (above ++ (fields.take p).map Field.id) e

section Rows
variable {above : List String} {f : Field} {fields : List Field} {p : Nat} {e : Error}

theorem faultyAt_iff : FaultyAt above fields p ↔ ∃ e, FaultAt above fields p e := by
  unfold FaultyAt FaultAt
  rw [exists_comm]
  refine exists_congr fun f => ?_
  rw [exists_and_left, Field.faulty_iff_fault]

theorem faultAt_zero : FaultAt above (f :: fields) 0 e ↔ f.Fault above e := by simp [FaultAt]

theorem faultAt_succ : FaultAt above (f :: fields) (p + 1) e ↔ FaultAt (above ++ [f.id]) fields p e := by
  simp [FaultAt]

theorem first_faulty_succ : (∀ q < p + 1, ¬ FaultyAt above (f :: fields) q) ↔
    (∀ e, ¬ f.Fault above e) ∧ ∀ q < p, ¬ FaultyAt (above ++ [f.id]) fields q := by
  rw [Nat.forall_lt_succ_left]
  simp only [faultyAt_iff, faultAt_zero, faultAt_succ, not_exists]

theorem foldlM_add_eq_error_iff {c : Catalog} : fields.foldlM add c = .error e ↔
    ∃ p, (∀ q < p, ¬ FaultyAt (c.fields.map Field.id) fields q) ∧ FaultAt (c.fields.map Field.id) fields p e := by
  induction fields generalizing c with
  | nil =>
    simp only [List.foldlM_nil, FaultAt, List.getElem?_nil]
    constructor
    · intro refused
      cases refused
    · rintro ⟨_, _, _, row, _⟩
      cases row
  | cons f fields ih =>
    rw [List.foldlM_cons, ← Nat.or_exists_add_one]
    simp only [first_faulty_succ, faultAt_zero, faultAt_succ, ← add_eq_error_iff]
    cases taken : c.add f with
    | error e' =>
      change Except.error e' = Except.error e ↔ _
      simp
    | ok d =>
      change fields.foldlM add d = .error e ↔ _
      simp [ih, fields_add taken]

theorem ofFields_eq_error_iff : ofFields fields = .error e ↔
    ∃ p, (∀ q < p, ¬ FaultyAt [] fields q) ∧ FaultAt [] fields p e := foldlM_add_eq_error_iff

theorem not_faultyAt_of_ofFields {c : Catalog} (taken : ofFields fields = .ok c) : ¬ FaultyAt [] fields p := by
  induction p using Nat.strongRecOn with
  | ind p first =>
    intro faulty
    obtain ⟨e, fault⟩ := faultyAt_iff.mp faulty
    have refused := ofFields_eq_error_iff.mpr ⟨p, first, fault⟩
    rw [taken] at refused
    cases refused

end Rows

theorem build_of_ok {fields : List Field} {c : Catalog} (taken : ofFields fields = .ok c) :
    build fields = ⟨.ok c, [.catalogBuilt fields.length]⟩ := by
  simp only [build, taken, size, fields_ofFields taken]
  rfl

theorem build_of_error {fields : List Field} {e : Error} (refused : ofFields fields = .error e) :
    build fields = ⟨.error e, []⟩ := by
  simp only [build, refused]
  rfl

theorem build_eq_iff (fields : List Field) :
    ((∃ c, build fields = ⟨.ok c, [.catalogBuilt fields.length]⟩ ∧ c.fields = fields) ↔
      ∀ p, ¬ FaultyAt [] fields p) ∧
    ((∃ e, build fields = ⟨.error e, []⟩) ↔ ∃ p, FaultyAt [] fields p) ∧
    ∀ e, build fields = ⟨.error e, []⟩ ↔
      ∃ p, (∀ q < p, ¬ FaultyAt [] fields q) ∧ FaultAt [] fields p e := by
  cases built : ofFields fields with
  | ok c =>
    have clean : ∀ p, ¬ FaultyAt [] fields p := fun p => not_faultyAt_of_ofFields built
    have none : ∀ p e, ¬ FaultAt [] fields p e := fun p e fault => clean p (faultyAt_iff.mpr ⟨e, fault⟩)
    simp [build_of_ok built, fields_ofFields built, clean, none]
  | error e =>
    obtain ⟨p, first, fault⟩ := ofFields_eq_error_iff.mp built
    have faulty : FaultyAt [] fields p := faultyAt_iff.mpr ⟨e, fault⟩
    rw [build_of_error built]
    refine ⟨?_, ?_, fun e' => ?_⟩
    · constructor
      · rintro ⟨c, accepted, _⟩
        cases accepted
      · exact fun clean => absurd faulty (clean p)
    · simp only [Traced.mk.injEq, Except.error.injEq, and_true, exists_eq', true_iff]
      exact ⟨p, faulty⟩
    · rw [← ofFields_eq_error_iff, built]
      simp

-- The second row repeats an operator before it comes to one that is not for dates, the third is not looked at, and the
-- id that the first two share is not what is wrong first.
example :
    (build [⟨"a", "", .text, [.contains]⟩, ⟨"a", "", .date, [.equals, .equals, .isIn]⟩, ⟨"b", "", .text, []⟩]).value =
      .error (.repeatedOperator "a" .equals) := rfl

end Catalog
end Criteria
