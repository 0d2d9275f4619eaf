import PageInvalidation.Proofs.Outcome
import PageInvalidation.Proofs.Usage.Page

/-! # A page record by its entities

A page record can be read entity by entity: its entities, the usages of each of them and the keys of these usages.
The usages of the entities are apart from each other and together they are the usages of the record
(`UsageSet.flatMap_ofEntity_perm`), and an entity's keys are those of its usages, one for one (`UsageSet.keysOf_eq`). So
nothing is lost if a record is taken apart into entities and the texts of keys, and made again from these
(`PageUsages.taken_apart_and_rebuilt`). -/

namespace PageInvalidation

/-! ### The entities of a set -/

namespace UsageSet

variable (s : UsageSet) {e : EntityId}

theorem nodup_entities : s.entities.Nodup := nodup_distinct _

theorem nodup_ofEntity (e : EntityId) : (s.ofEntity e).Nodup := s.nodup_toList.filter _

theorem disjoint_ofEntity {e' : EntityId} (h : e ≠ e') : (s.ofEntity e).Disjoint (s.ofEntity e') := by
  intro u hu hu'
  obtain ⟨-, rfl⟩ := s.mem_ofEntity.mp hu
  exact h (s.mem_ofEntity.mp hu').2

theorem pairwise_disjoint_ofEntity :
    s.entities.Pairwise fun e e' => (s.ofEntity e).Disjoint (s.ofEntity e') :=
  s.nodup_entities.imp s.disjoint_ofEntity

/-- **The usages of the entities, one entity after the other**, are those of the set in another order. -/
theorem flatMap_ofEntity_perm : (s.entities.flatMap s.ofEntity).Perm s.toList := by
  have hnodup : (s.entities.flatMap s.ofEntity).Nodup :=
    List.nodup_flatMap.mpr ⟨fun e _ => s.nodup_ofEntity e, s.pairwise_disjoint_ofEntity⟩
  refine (List.perm_ext_iff_of_nodup hnodup s.nodup_toList).mpr fun u => ?_
  rw [List.mem_flatMap]
  constructor
  · rintro ⟨e, -, hu⟩
    exact (s.mem_ofEntity.mp hu).1
  · intro hu
    exact ⟨u.entity, s.mem_entities.mpr ⟨u, hu, rfl⟩, s.mem_ofEntity.mpr ⟨hu, rfl⟩⟩

/-! ### The keys of an entity -/

theorem nodup_map_key (e : EntityId) : ((s.ofEntity e).map Usage.key).Nodup := by
  refine (s.nodup_ofEntity e).map_on ?_
  rintro ⟨e₁, k⟩ hu ⟨e₂, k'⟩ hv rfl
  obtain rfl : e₁ = e := (s.mem_ofEntity.mp hu).2
  obtain rfl : e₂ = e₁ := (s.mem_ofEntity.mp hv).2
  rfl

theorem keysOf_eq (e : EntityId) : s.keysOf e = (s.ofEntity e).map Usage.key :=
  distinct_of_nodup (s.nodup_map_key e)

theorem nodup_map_text_keysOf (e : EntityId) : ((s.keysOf e).map AspectKey.text).Nodup := by
  rw [keysOf_eq]
  exact (s.nodup_map_key e).map fun _ _ => AspectKey.text_injective

theorem mapM_ofKeyText (e : EntityId) :
    ((s.keysOf e).mapM fun k => Usage.ofKeyText e k.text) = .ok (s.ofEntity e) := by
  rw [keysOf_eq]
  refine Outcome.mapM_map_eq_ok fun u hu => ?_
  obtain ⟨-, rfl⟩ := s.mem_ofEntity.mp hu
  exact u.ofKeyText_text

end UsageSet

/-! ### A record made again -/

namespace PageUsages

variable (p : PageUsages)

/-- A record made again from the entities of a record and the texts of their keys. -/
def rebuilt : Except Usage.Error PageUsages := do
  let us ← p.usages.entities.mapM fun e => (p.usages.keysOf e).mapM fun k => Usage.ofKeyText e k.text
  return .ofList p.pageId us.flatten

theorem rebuilt_eq : p.rebuilt = .ok (.ofList p.pageId (p.usages.entities.flatMap p.usages.ofEntity)) := by
  have husages : (p.usages.entities.mapM fun e => (p.usages.keysOf e).mapM fun k => Usage.ofKeyText e k.text) =
      .ok (p.usages.entities.map p.usages.ofEntity) :=
    Outcome.mapM_eq_ok_map fun e _ => p.usages.mapM_ofKeyText e
  rw [rebuilt, husages, List.flatMap_def]
  rfl

theorem toList_rebuilt : (ofList p.pageId (p.usages.entities.flatMap p.usages.ofEntity)).toList =
    p.usages.entities.flatMap p.usages.ofEntity := by
  have hnodup : ((p.usages.entities.flatMap p.usages.ofEntity).map Usage.identity).Nodup :=
    (p.usages.flatMap_ofEntity_perm.map _).nodup_iff.mpr p.usages.nodup
  exact Keyed.toList_ofList_of_nodup hnodup

/-- **A record is the sum of what its entities use.** Its entities are listed once each. Their usages are apart from
each other and together are all usages of the record; the keys of an entity are those of its usages, each once; and
the record made again from the entities and the texts of their keys is equal to it. -/
theorem taken_apart_and_rebuilt (p : PageUsages) :
    (p.usages.entities.Nodup ∧ ∀ e, e ∈ p.usages.entities ↔ ∃ u ∈ p.toList, u.entity = e) ∧
      (∀ e u, u ∈ p.usages.ofEntity e ↔ u ∈ p.toList ∧ u.entity = e) ∧
      (p.usages.entities.Pairwise fun e e' => (p.usages.ofEntity e).Disjoint (p.usages.ofEntity e')) ∧
      (p.usages.entities.map p.usages.ofEntity).flatten.Perm p.toList ∧
      (∀ e, (p.usages.keysOf e).map AspectKey.text = (p.usages.ofEntity e).map (·.key.text) ∧
        ((p.usages.keysOf e).map AspectKey.text).Nodup) ∧
      ∃ q, p.rebuilt = .ok q ∧ q.same p = true ∧ q.toList.Perm p.toList := by
  have hperm := p.usages.flatMap_ofEntity_perm
  refine ⟨⟨p.usages.nodup_entities, fun e => p.usages.mem_entities⟩, fun e u => p.usages.mem_ofEntity,
    p.usages.pairwise_disjoint_ofEntity, ?_, fun e => ⟨?_, p.usages.nodup_map_text_keysOf e⟩, _, p.rebuilt_eq, ?_⟩
  · rw [← List.flatMap_def]
    exact hperm
  · rw [UsageSet.keysOf_eq, List.map_map]
    rfl
  · have hq : (ofList p.pageId (p.usages.entities.flatMap p.usages.ofEntity)).toList.Perm p.toList := by
      rw [toList_rebuilt]
      exact hperm
    exact ⟨same_of_mem_iff rfl fun u => hq.mem_iff, hq⟩

end PageUsages

end PageInvalidation
