import Criteria.Proofs.ConditionTexts
import Criteria.Proofs.Locality
import Criteria.Proofs.Utf8Order

namespace Criteria

namespace Json

theorem member?_eq_some_iff {ms : List (String × Json)} (distinct : (ms.map Prod.fst).Nodup) {key : String}
    {v : Json} : member? ms key = some v ↔ (key, v) ∈ ms := by
  have distinct' : (ms.reverse.map Prod.fst).Nodup := by rwa [List.map_reverse, List.nodup_reverse]
  have found := OrderedMap.mem_entries_iff (m := ⟨ms.reverse, distinct'⟩) (e := (key, v))
  rw [List.mem_reverse] at found
  exact found.symm

theorem member?_of_perm {ms : List (String × Json)} {m : OrderedMap Json} (perm : ms.Perm m.entries) (key : String) :
    member? ms key = m.get? key := by
  have distinct : (ms.map Prod.fst).Nodup := (perm.map Prod.fst).nodup_iff.mpr m.distinct
  refine Option.ext fun v => ?_
  rw [member?_eq_some_iff distinct, perm.mem_iff, OrderedMap.mem_entries_iff]

end Json

namespace Param

theorem toJson_injective : Function.Injective toJson := by
  intro p q same
  cases p with
  | list ids =>
    cases q with
    | list others =>
      have strings := Json.array.inj same
      rw [List.map_inj_right fun _ _ => Json.string.inj] at strings
      rw [strings]
    | flag b => cases same
    | text s => cases same
  | flag b => cases q <;> cases same; rfl
  | text s => cases q <;> cases same; rfl

theorem depth_toJson (p : Param) : p.toJson.depth ≤ 1 := by
  cases p with
  | list ids => simp [toJson, Json.depth, Condition.depthItems_string]
  | _ => simp [toJson, Json.depth]

theorem numberless_toJson (p : Param) : p.toJson.numberless = true := by
  cases p with
  | list ids => simp [toJson, Json.numberless, Condition.numberlessItems_string]
  | _ => rfl

end Param

namespace Params

theorem members_eq (params : Params) : params.members = (params.map Param.toJson).entries := rfl

theorem keys_members (params : Params) : params.members.map Prod.fst = params.keys := by
  rw [members_eq]
  exact OrderedMap.keys_map _ params

theorem member?_of_perm {ms : List (String × Json)} {params : Params} (perm : ms.Perm params.members) (key : String) :
    Json.member? ms key = (params.get? key).map Param.toJson := by
  rw [← OrderedMap.get?_map]
  exact Json.member?_of_perm perm key

theorem members_inj {params other : Params} : other.members = params.members ↔ other = params := by
  refine ⟨fun same => ?_, congrArg members⟩
  apply OrderedMap.ext
  have entry : Function.Injective fun e : String × Param => (e.1, e.2.toJson) := by
    intro e e' equal
    obtain ⟨key, value⟩ := Prod.mk.inj equal
    exact Prod.ext key (Param.toJson_injective value)
  exact List.map_injective_iff.mpr entry same

def sortedMembers (params : Params) : List (String × Json) :=
  params.members.mergeSort fun a b => decide (a.1 ≤ b.1)

theorem sortedMembers_perm (params : Params) : params.sortedMembers.Perm params.members :=
  List.mergeSort_perm _ _

theorem sortedMembers_ascending (params : Params) :
    params.sortedMembers.Pairwise fun a b => Text.utf8 a.1.toList < Text.utf8 b.1.toList := by
  have distinct : (params.sortedMembers.map Prod.fst).Nodup := by
    rw [(params.sortedMembers_perm.map Prod.fst).nodup_iff, keys_members]
    exact params.distinct
  refine (pairwise_mergeSort_key params.members).imp₂ ?_ (List.pairwise_map.mp distinct)
  intro a b before apart
  have less : a.1 < b.1 := String.not_le.mp fun behind => apart (String.le_antisymm before behind)
  exact Text.utf8_lt less

theorem decode_render_of_perm {ms : List (String × Json)} {params : Params} (perm : ms.Perm params.members) :
    Json.decode (Json.Reader.value Json.room) (Json.object ms).render = .ok (.object ms) := by
  have parameter : ∀ m ∈ ms, ∃ p : Param, p.toJson = m.2 := by
    intro m member
    obtain ⟨e, _, rfl⟩ := List.mem_map.mp (perm.mem_iff.mp member)
    exact ⟨e.2, rfl⟩
  apply Json.decode_render
  · rw [Json.numberless]
    refine Json.numberlessMembers_iff.mpr fun m member => ?_
    obtain ⟨p, same⟩ := parameter m member
    exact same ▸ p.numberless_toJson
  · have deep : Json.depthMembers ms ≤ 1 := by
      refine Json.depthMembers_le_iff.mpr fun m member => ?_
      obtain ⟨p, same⟩ := parameter m member
      exact same ▸ p.depth_toJson
    rw [Json.depth, Json.room]
    omega

theorem decode_members (params : Params) :
    Json.decode (Json.Reader.value Json.room) params.toJson.render = .ok (.object params.members) :=
  decode_render_of_perm (.refl _)

theorem decode_sortedMembers (params : Params) :
    Json.decode (Json.Reader.value Json.room) params.toSortedJson.render = .ok (.object params.sortedMembers) :=
  decode_render_of_perm params.sortedMembers_perm

theorem render_toJson_inj {params other : Params} : other.toJson.render = params.toJson.render ↔ other = params := by
  refine ⟨fun same => ?_, fun equal => by rw [equal]⟩
  have read := other.decode_members
  rw [same, decode_members] at read
  exact (members_inj.mp (Json.object.inj (Except.ok.inj read))).symm

-- The sorted text tells everything but the order of the map.
theorem render_toSortedJson_inj {params other : Params} :
    other.toSortedJson.render = params.toSortedJson.render ↔ ∀ key, other.get? key = params.get? key := by
  constructor
  · intro same key
    have read := other.decode_sortedMembers
    rw [same, decode_sortedMembers] at read
    have members : params.sortedMembers = other.sortedMembers := Json.object.inj (Except.ok.inj read)
    have held := member?_of_perm other.sortedMembers_perm key
    rw [← members, member?_of_perm params.sortedMembers_perm] at held
    exact Option.map_injective Param.toJson_injective held.symm
  · intro held
    rw [toSortedJson_eq_of_perm (OrderedMap.perm_of_get? held)]

end Params

theorem params_texts (catalog : Catalog) (conditions : List Condition) (combinator : Combinator) :
    let params := (Params.compile catalog conditions combinator).value
    ∃ ordered sorted : List (String × Json),
      Json.decode (Json.Reader.value Json.room) params.toJson.render = .ok (.object ordered) ∧
      Json.decode (Json.Reader.value Json.room) params.toSortedJson.render = .ok (.object sorted) ∧
      ordered.map Prod.fst = params.keys ∧
      sorted.Perm ordered ∧
      sorted.Pairwise (fun a b => Text.utf8 a.1.toList < Text.utf8 b.1.toList) ∧
      (∀ key,
        Json.member? ordered key = (params.get? key).map Param.toJson ∧
        Json.member? sorted key = (params.get? key).map Param.toJson) ∧
      ∀ other : Params,
        (other.toJson.render = params.toJson.render ↔ other = params) ∧
        (other.toSortedJson.render = params.toSortedJson.render ↔ ∀ key, other.get? key = params.get? key) := by
  intro params
  refine ⟨params.members, params.sortedMembers, params.decode_members, params.decode_sortedMembers,
    params.keys_members, params.sortedMembers_perm, params.sortedMembers_ascending, fun key => ⟨?_, ?_⟩,
    fun other => ⟨Params.render_toJson_inj, Params.render_toSortedJson_inj⟩⟩
  · exact Params.member?_of_perm (.refl _) key
  · exact Params.member?_of_perm params.sortedMembers_perm key

end Criteria
