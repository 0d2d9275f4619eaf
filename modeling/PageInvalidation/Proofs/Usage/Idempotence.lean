import PageInvalidation.Proofs.Usage.Narrowing

/-! # Narrowing twice

Narrowing may bring keys in that the page did not use, and may keep keys that were not touched. Neither kind makes
a second narrowing add or drop anything: of keys that were kept all are kept again, and no further ones
(`mem_narrowKeys_of_kept`, `mem_narrowKeys_of_mem`). A usage can still be missing from the narrowed record, since
another one of the same identity came first, so the keys of an entity are only some of the kept ones there; the
identities are all there, and `Narrowing.apply_apply_same` is about these. -/

namespace PageInvalidation.Narrowing

variable {used used' relevant : List AspectKey} {k : AspectKey}

/-! ### Keys -/

theorem narrowKeys_of_relevant_all (hu : .bare .all ∉ used) (hr : .bare .all ∈ relevant) :
    narrowKeys used relevant = used := by
  cases used with
  | nil => rfl
  | cons u used =>
    rw [narrowKeys, List.isEmpty_cons, if_neg Bool.false_ne_true, if_neg hu, if_pos hr]

theorem mem_or_mem_of_mem_narrowKeys (h : k ∈ narrowKeys used relevant) : k ∈ used ∨ k ∈ relevant := by
  by_cases hu : .bare .all ∈ used
  · rw [narrowKeys_of_used_all hu] at h
    exact .inr h
  · by_cases hr : .bare .all ∈ relevant
    · rw [narrowKeys_of_relevant_all hu hr] at h
      exact .inl h
    · rcases (mem_narrowKeys hu hr).mp h with ⟨h, -⟩ | ⟨h, -⟩
      · exact .inr h
      · exact .inl h

theorem all_mem_narrowKeys_iff :
    .bare .all ∈ narrowKeys used relevant ↔ .bare .all ∈ used ∧ .bare .all ∈ relevant := by
  by_cases hu : .bare .all ∈ used
  · rw [narrowKeys_of_used_all hu, and_iff_right hu]
  · refine ⟨fun h => ?_, fun h => absurd h.1 hu⟩
    by_cases hr : .bare .all ∈ relevant
    · rw [narrowKeys_of_relevant_all hu hr] at h
      exact absurd h hu
    · exact ((mem_or_mem_of_mem_narrowKeys h).elim hu hr).elim

/-- **What was kept is kept again**, from whichever of the kept keys it is narrowed. -/
theorem mem_narrowKeys_of_kept (hkept : ∀ k ∈ used', k ∈ narrowKeys used relevant) (hk : k ∈ used') :
    k ∈ narrowKeys used' relevant := by
  have h := hkept k hk
  by_cases hu' : .bare .all ∈ used'
  · have hu := (all_mem_narrowKeys_iff.mp (hkept _ hu')).1
    rw [narrowKeys_of_used_all hu] at h
    rwa [narrowKeys_of_used_all hu']
  · by_cases hr : .bare .all ∈ relevant
    · rwa [narrowKeys_of_relevant_all hu' hr]
    · rw [mem_narrowKeys hu' hr]
      by_cases hu : .bare .all ∈ used
      · rw [narrowKeys_of_used_all hu] at h
        exact .inl ⟨h, k, hk, .inl rfl⟩
      · rcases (mem_narrowKeys hu hr).mp h with ⟨h, -⟩ | ⟨-, h⟩
        · exact .inl ⟨h, k, hk, .inl rfl⟩
        · exact .inr ⟨hk, h⟩

/-- **Narrowing kept keys again adds none.** -/
theorem mem_narrowKeys_of_mem (hkept : ∀ k ∈ used', k ∈ narrowKeys used relevant)
    (hk : k ∈ narrowKeys used' relevant) : k ∈ narrowKeys used relevant := by
  by_cases hu : .bare .all ∈ used
  · -- all relevant keys were kept, and there are no others
    rw [narrowKeys_of_used_all hu] at hkept ⊢
    exact (mem_or_mem_of_mem_narrowKeys hk).elim (hkept k) id
  · have hu' : .bare .all ∉ used' := fun h => hu (all_mem_narrowKeys_iff.mp (hkept _ h)).1
    by_cases hr : .bare .all ∈ relevant
    · rw [narrowKeys_of_relevant_all hu' hr] at hk
      exact hkept k hk
    · rcases (mem_narrowKeys hu' hr).mp hk with ⟨hrel, u, hmem, hcov⟩ | ⟨hmem, -⟩
      · rcases hcov with rfl | rfl
        · exact hkept u hmem
        · -- a bare key is not brought in by narrowing, so the page used it before
          refine (mem_narrowKeys hu hr).mpr (.inl ⟨hrel, ?_⟩)
          rcases (mem_narrowKeys hu hr).mp (hkept _ hmem) with ⟨-, v, hv, hcov⟩ | ⟨hv, -⟩
          · exact ⟨v, hv, .inr (AspectKey.covers_bare.mp hcov)⟩
          · exact ⟨_, hv, .inr rfl⟩
      · exact hkept k hmem

/-! ### Records -/

variable (n : Narrowing) (p : PageUsages)

theorem mem_narrowKeys_of_mem_keysOf {e : EntityId} (hk : k ∈ (n.apply p).usages.keysOf e) :
    k ∈ narrowKeys (p.usages.keysOf e) (n.get e) :=
  n.reports_of_mem_apply ((n.apply p).usages.mem_keysOf.mp hk)

/-- **Narrowing twice is narrowing once**: the records are equal, whatever the relevant keys are and whatever the
page uses. -/
theorem apply_apply_same : (n.apply (n.apply p)).same (n.apply p) = true := by
  refine PageUsages.same_iff.mpr ⟨by rw [pageId_apply], fun i => ?_⟩
  constructor
  · intro hi
    obtain ⟨u, hu, rfl⟩ := n.mem_keys_apply.mp hi
    exact n.mem_keys_apply.mpr
      ⟨u, mem_narrowKeys_of_mem (fun k => n.mem_narrowKeys_of_mem_keysOf p) hu, rfl⟩
  · intro hi
    -- of the usages with this identity it is the one in the record that is kept again
    obtain ⟨u, hu, rfl⟩ := (n.apply p).usages.mem_keys.mp hi
    have hk : u.key ∈ (n.apply p).usages.keysOf u.entity := (n.apply p).usages.mem_keysOf.mpr hu
    exact n.mem_keys_apply.mpr
      ⟨u, mem_narrowKeys_of_kept (fun k => n.mem_narrowKeys_of_mem_keysOf p) hk, rfl⟩

end PageInvalidation.Narrowing
