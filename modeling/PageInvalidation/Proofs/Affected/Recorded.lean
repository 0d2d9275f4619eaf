import PageInvalidation.Affected.Pages
import PageInvalidation.Proofs.Change.Aspects
import PageInvalidation.Proofs.Usage.Agreement
import PageInvalidation.Proofs.Usage.Store

/-! # What is reported for recorded usages

Looking up the touched keys and narrowing to them reports, for each page, the touched keys that a recorded
key stands for (`Finder.holds_narrowed`). No touched key stands for another, which is why narrowing adds no
used key that is not touched itself (`Finder.mem_narrowKeys_iff`). -/

namespace PageInvalidation.Finder

open ChangedAspects (Touchable)
open PageUsages (Holds Proper)

variable {store : UsageStore} {touched used : List AspectKey} {ps : List PageUsages} {k : AspectKey}
  {e : EntityId} {u : Usage} {p : PageUsages} {n : ℕ}

/-- A key is touched, and a page that uses the given keys uses it, under its own key, the bare key of its
aspect, or the key of everything. -/
def Reported (touched used : List AspectKey) (k : AspectKey) : Prop :=
  k ∈ touched ∧ (.bare .all ∈ used ∨ ∃ u ∈ used, u.Covers k)

/-! ### Keys -/

theorem mem_lookupKeys : k ∈ lookupKeys touched ↔ k ∈ touched ∨ k = .bare .all := by
  rw [lookupKeys, mem_distinct, List.mem_append, List.mem_singleton]

/-- **Narrowing to the keys of a change** keeps those that are reported. -/
theorem mem_narrowKeys_iff (ht : ∀ k ∈ touched, Touchable k) :
    k ∈ Narrowing.narrowKeys used touched ↔ Reported touched used k := by
  by_cases hu : .bare .all ∈ used
  · rw [Narrowing.narrowKeys_of_used_all hu, Reported, and_iff_left (.inl hu)]
  · have hall : .bare .all ∉ touched := fun h => (ht _ h).ne_all rfl
    rw [Narrowing.mem_narrowKeys hu hall, Reported, or_iff_right hu]
    constructor
    · rintro (h | ⟨hk, t, hmem, hcov⟩)
      · exact h
      · -- a used key that a touched key stands for is that touched key
        rw [(ht t hmem).eq_of_covers hcov] at hk ⊢
        exact ⟨hmem, t, hk, .inl rfl⟩
    · exact .inl

theorem listed_lookupKeys_iff :
    UsageStore.listed (lookupKeys touched) (UsageStore.wanted [e] (n, store.usages n)) = true ↔
      .bare .all ∈ (store.usages n).keysOf e ∨
        ∃ k ∈ (store.usages n).keysOf e, ∃ t ∈ touched, k.Covers t ∨ t.Covers k := by
  have hne : lookupKeys touched ≠ [] := List.ne_nil_of_mem (mem_lookupKeys.mpr (.inr rfl))
  rw [UsageStore.listed_iff hne, ← Narrowing.exists_admitted_iff fun k => mem_lookupKeys]
  constructor
  · rintro ⟨u, hu, h⟩
    obtain ⟨hmem, rfl⟩ := UsageStore.mem_wanted_singleton.mp hu
    exact ⟨u.key, (store.usages n).mem_keysOf.mpr hmem, h⟩
  · rintro ⟨k, hk, h⟩
    exact ⟨⟨e, k⟩, UsageStore.mem_wanted_singleton.mpr ⟨(store.usages n).mem_keysOf.mp hk, rfl⟩, h⟩

/-! ### Pages -/

theorem mem_narrowed : p ∈ narrowed e touched ps ↔
    ∃ q ∈ ps, (Narrowing.empty.set e touched).apply q = p ∧ p.toList ≠ [] := by
  rw [narrowed, List.mem_filter, List.mem_map, Bool.not_eq_true', ← Bool.not_eq_true,
    PageUsages.isEmpty_iff]
  constructor
  · rintro ⟨⟨q, hq, h⟩, hne⟩
    exact ⟨q, hq, h, hne⟩
  · rintro ⟨q, hq, h, hne⟩
    exact ⟨⟨q, hq, h⟩, hne⟩

theorem mem_apply_iff (ht : ∀ k ∈ touched, Touchable k)
    (hp : p = .ofList n (UsageStore.wanted [e] (n, store.usages n))) :
    u ∈ ((Narrowing.empty.set e touched).apply p).toList ↔
      u.entity = e ∧ Reported touched ((store.usages n).keysOf e) u.key := by
  have hwanted : Set.InjOn Usage.identity
      {v | v ∈ UsageStore.wanted [e] ((n : Int), store.usages n)} :=
    Usage.identity_injOn fun v hv => (UsageStore.mem_wanted_singleton.mp hv).2
  have hmem : ∀ v, v ∈ p.toList ↔ v ∈ (store.usages n).toList ∧ v.entity = e := by
    intro v
    rw [hp, PageUsages.mem_ofList hwanted, UsageStore.mem_wanted_singleton]
  have hkeys : ∀ k, k ∈ p.usages.keysOf e ↔ k ∈ (store.usages n).keysOf e := by
    intro k
    rw [p.usages.mem_keysOf, (store.usages n).mem_keysOf]
    exact (hmem ⟨e, k⟩).trans (and_iff_left rfl)
  rw [Narrowing.mem_apply_of_entity _ (fun v hv => ((hmem v).mp hv).2), Narrowing.get_set_self,
    mem_narrowKeys_iff fun k hk => ht k (mem_distinct.mp hk)]
  simp only [Reported, mem_distinct, hkeys]

/-- **What is reported for recorded usages.** -/
theorem holds_narrowed (ht : ∀ k ∈ touched, Touchable k)
    (h : store.pagesUsing [e] (lookupKeys touched) = .ok ps) :
    Holds (narrowed e touched ps) n u ↔
      u.entity = e ∧ Reported touched ((store.usages n).keysOf e) u.key := by
  constructor
  · rintro ⟨p, hp, rfl, hu⟩
    obtain ⟨q, hq, rfl, -⟩ := mem_narrowed.mp hp
    rw [Narrowing.pageId_apply]
    exact (mem_apply_iff ht ((UsageStore.mem_pagesUsing h).mp hq).2).mp hu
  · intro hu
    have hq : .ofList n (UsageStore.wanted [e] (n, store.usages n)) ∈ ps := by
      refine (UsageStore.mem_pagesUsing h).mpr ⟨listed_lookupKeys_iff.mpr ?_, rfl⟩
      obtain ⟨-, hk, hused⟩ := hu
      exact hused.imp id fun ⟨v, hv, hcov⟩ => ⟨v, hv, u.key, hk, .inl hcov⟩
    have hmem := (mem_apply_iff ht rfl).mpr hu
    exact ⟨_, mem_narrowed.mpr ⟨_, hq, rfl, List.ne_nil_of_mem hmem⟩, Narrowing.pageId_apply _ _, hmem⟩

theorem proper_narrowed (h : store.pagesUsing [e] (lookupKeys touched) = .ok ps) :
    Proper (narrowed e touched ps) := by
  have hids : (ps.map (Narrowing.empty.set e touched).apply).map PageUsages.pageId =
      ps.map PageUsages.pageId := by
    rw [List.map_map]
    exact List.map_congr_left fun p _ => Narrowing.pageId_apply _ p
  constructor
  · have hnd := UsageStore.nodup_pageId_pagesUsing h
    rw [← hids] at hnd
    exact hnd.sublist (List.filter_sublist.map PageUsages.pageId)
  · intro p hp
    obtain ⟨q, -, -, hne⟩ := mem_narrowed.mp hp
    exact hne

end PageInvalidation.Finder
