import Criteria.Proofs.Demands
import Criteria.Query
import Mathlib.Data.List.Forall2

namespace Criteria

theorem Text.trim_surround {p t q : String} (before : ∀ c ∈ p.toList, isBlank c = true)
    (behind : ∀ c ∈ q.toList, isBlank c = true) : trim (p ++ t ++ q) = trim t := by
  by_cases blank : trim t = ""
  · rw [blank, trim_eq_empty_iff]
    rw [trim_eq_empty_iff] at blank
    intro c member
    simp only [String.toList_append, List.append_assoc, List.mem_append] at member
    rcases member with first | middle | last
    · exact before c first
    · exact blank c middle
    · exact behind c last
  · have core := core_trim blank
    rcases core.between with ⟨p', q', before', behind', whole⟩
    have wider : Core (p ++ t ++ q) (trim t) := by
      refine ⟨⟨p ++ p', q' ++ q, ?_, ?_, ?_⟩, core.filled, core.first, core.last⟩
      · simpa [or_imp, forall_and] using ⟨before, before'⟩
      · simpa [or_imp, forall_and] using ⟨behind', behind⟩
      · nth_rewrite 1 [whole]
        simp only [String.append_assoc]
    exact wider.eq_trim.symm

namespace Condition
variable {catalog : Catalog} {c d : Condition}

theorem complete_congr {f : Field} (listed : f ∈ catalog.fields) (named : c.field = some f.id) {v w : Value}
    (same : ∀ o, c.operator = some o → Demand.ofValue f.kind o v = Demand.ofValue f.kind o w) :
    ({ c with value := v } : Condition).complete catalog = ({ c with value := w } : Condition).complete catalog := by
  have found : catalog.find? f.id = some f := Catalog.find?_eq_some_iff.mpr ⟨listed, rfl⟩
  simp only [complete, named, found]
  cases chosen : c.operator with
  | none => rfl
  | some o => simp only [same o chosen]

-- One condition, but for the spelling of its value: a pair stands for a period where a period of dates is asked for, and
-- there may be more blanks around a text where a text is asked for; and back.
inductive Respells (catalog : Catalog) : Condition → Condition → Prop where
  | same (c : Condition) : Respells catalog c c
  | pair (id : String) {f : Field} (listed : f ∈ catalog.fields) (dates : f.kind = .date) (start stop : String) :
      Respells catalog ⟨id, some f.id, some .between, .selection [start, stop]⟩
        ⟨id, some f.id, some .between, .period ⟨start, stop⟩⟩
  | surround (id : String) (o : Option Operator) {f : Field} (listed : f ∈ catalog.fields) (texts : f.kind = .text)
      {p q : String} (t : String) (before : ∀ c ∈ p.toList, Text.isBlank c = true)
      (behind : ∀ c ∈ q.toList, Text.isBlank c = true) :
      Respells catalog ⟨id, some f.id, o, .text t⟩ ⟨id, some f.id, o, .text (p ++ t ++ q)⟩
  | back {c d : Condition} (respells : Respells catalog c d) : Respells catalog d c
  | again {b c d : Condition} (first : Respells catalog b c) (second : Respells catalog c d) : Respells catalog b d

theorem complete_pair (id : String) {f : Field} (listed : f ∈ catalog.fields) (dates : f.kind = .date)
    (start stop : String) :
    (⟨id, some f.id, some .between, .selection [start, stop]⟩ : Condition).complete catalog =
      (⟨id, some f.id, some .between, .period ⟨start, stop⟩⟩ : Condition).complete catalog := by
  apply complete_congr (c := ⟨id, some f.id, some .between, .absent⟩) listed rfl
  intro o chosen
  cases chosen
  rw [dates]
  rfl

theorem complete_surround (id : String) (o : Option Operator) {f : Field} (listed : f ∈ catalog.fields)
    (texts : f.kind = .text) {p q : String} (t : String) (before : ∀ c ∈ p.toList, Text.isBlank c = true)
    (behind : ∀ c ∈ q.toList, Text.isBlank c = true) :
    (⟨id, some f.id, o, .text (p ++ t ++ q)⟩ : Condition).complete catalog =
      (⟨id, some f.id, o, .text t⟩ : Condition).complete catalog := by
  apply complete_congr (c := ⟨id, some f.id, o, .absent⟩) listed rfl
  intro o _
  rw [texts]
  cases o with
  | contains => simp only [Demand.ofValue, Demand.ofText, Text.trim_surround before behind]
  | _ => rfl

theorem Respells.complete_eq (respells : c.Respells catalog d) : c.complete catalog = d.complete catalog := by
  induction respells with
  | same => rfl
  | pair id listed dates start stop => exact complete_pair id listed dates start stop
  | surround id o listed texts t before behind => exact (complete_surround id o listed texts t before behind).symm
  | back _ ih => exact ih.symm
  | again _ _ first second => exact first.trans second

theorem Respells.id_eq (respells : c.Respells catalog d) : c.id = d.id := by
  induction respells with
  | back _ ih => exact ih.symm
  | again _ _ first second => exact first.trans second
  | _ => rfl

theorem Respells.field_eq (respells : c.Respells catalog d) : c.field = d.field := by
  induction respells with
  | back _ ih => exact ih.symm
  | again _ _ first second => exact first.trans second
  | _ => rfl

end Condition

theorem criteria_respelled {catalog : Catalog} {conditions others : List Condition}
    (respelled : List.Forall₂ (Condition.Respells catalog) conditions others) :
    criteria catalog conditions = criteria catalog others := by
  induction respelled with
  | nil => rfl
  | cons first _ ih => rw [criteria, criteria, first.complete_eq, first.id_eq, first.field_eq, ih]

theorem compile_respelled {catalog : Catalog} {conditions others : List Condition}
    (respelled : List.Forall₂ (Condition.Respells catalog) conditions others) (combinator : Combinator) :
    Params.compile catalog conditions combinator = Params.compile catalog others combinator ∧
    Query.compile catalog conditions combinator = Query.compile catalog others combinator ∧
    List.Forall₂ (fun c d => c.complete catalog = d.complete catalog) conditions others := by
  have same := criteria_respelled respelled
  refine ⟨?_, ?_, respelled.imp fun _ _ respells => respells.complete_eq⟩
  · rw [Params.compile, Params.compile, same]
  · rw [Query.compile, Query.compile, same]

-- A period and half a period, and a name with an ideographic space for two plain ones, under an operator that it has and
-- under one that it does not have.

def spelledSo : List Condition := [
  ⟨"c1", some "created_at", some .between, .selection ["2024-02-01", "2024-02-29"]⟩,
  ⟨"c2", some "updated_at", some .between, .period ⟨"", "2024-02-29"⟩⟩,
  ⟨"c3", some "ad_name", some .contains, .text "  Acme"⟩,
  ⟨"c4", some "ad_name", some .isIn, .text "Acme"⟩]

def spelledOtherwise : List Condition := [
  ⟨"c1", some "created_at", some .between, .period ⟨"2024-02-01", "2024-02-29"⟩⟩,
  ⟨"c2", some "updated_at", some .between, .selection ["", "2024-02-29"]⟩,
  ⟨"c3", some "ad_name", some .contains, .text "Acme\u3000"⟩,
  ⟨"c4", some "ad_name", some .isIn, .text "\tAcme\n"⟩]

theorem respelled_spelledSo : List.Forall₂ (Condition.Respells .builtIn) spelledSo spelledOtherwise := by
  have created : (⟨"created_at", "Created at", .date, [.equals, .between]⟩ : Field) ∈ Catalog.builtIn.fields := by decide
  have updated : (⟨"updated_at", "Updated at", .date, [.equals, .between]⟩ : Field) ∈ Catalog.builtIn.fields := by decide
  have name : (⟨"ad_name", "Ad name", .text, [.contains]⟩ : Field) ∈ Catalog.builtIn.fields := by decide
  refine .cons (.pair _ created rfl _ _) (.cons (.back (.pair _ updated rfl _ _)) (.cons ?_ (.cons ?_ .nil)))
  · refine .again (.back (.surround (p := "  ") (q := "") "c3" _ name rfl "Acme" ?_ ?_))
      (.surround (p := "") (q := "\u3000") "c3" _ name rfl "Acme" ?_ ?_)
    all_goals exact List.all_eq_true.mp (by decide)
  · refine .surround (p := "\t") (q := "\n") "c4" _ name rfl "Acme" ?_ ?_
    all_goals exact List.all_eq_true.mp (by decide)

theorem compile_respelled_spelledSo :
    List.Forall₂ (Condition.Respells .builtIn) spelledSo spelledOtherwise ∧
    Query.compile .builtIn spelledSo .and = Query.compile .builtIn spelledOtherwise .and ∧
    (Query.compile .builtIn spelledOtherwise .and).value =
      "created_at_start=2024-02-01&created_at_end=2024-02-29&created_at_operator=between&" ++
        "ad_name=Acme&ad_name_operator=contains&logical_operator=and" := by
  refine ⟨respelled_spelledSo, (compile_respelled respelled_spelledSo .and).2.1, by decide +kernel⟩

end Criteria
