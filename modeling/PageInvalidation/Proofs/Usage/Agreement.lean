import PageInvalidation.Proofs.Usage.Filter
import PageInvalidation.Proofs.Usage.Narrowing

/-! # Looking up and narrowing agree

Pages are looked up with the touched keys and the key of everything, and then narrowed to the touched keys.
The two rules are written apart, one as a test on the keys of a page and one as a selection among them; they
pick out the same pages (`Narrowing.lookup_finds_iff_narrowing_keeps`). -/

namespace PageInvalidation

variable {used touched keys : List AspectKey}

theorem AspectKey.covers_all_or {k : AspectKey} :
    k.Covers (bare .all) ∨ (bare .all).Covers k ↔ k = bare .all := by
  rw [covers_bare, bare_covers rfl, or_self_iff]

namespace Narrowing

/-! ### Keys -/

/-- The touched keys and that of everything admit a used key if and only if the key of everything is used or
a used key is related to a touched one. -/
theorem exists_admitted_iff (hkeys : ∀ k, k ∈ keys ↔ k ∈ touched ∨ k = .bare .all) :
    (∃ k ∈ used, (UsageFilter.ofKeys keys).admits k = true) ↔
      .bare .all ∈ used ∨ ∃ k ∈ used, ∃ t ∈ touched, k.Covers t ∨ t.Covers k := by
  simp only [UsageFilter.admits_ofKeys, hkeys]
  constructor
  · rintro ⟨k, hk, t, ht | rfl, h⟩
    · exact .inr ⟨k, hk, t, ht, h⟩
    · exact .inl (AspectKey.covers_all_or.mp h ▸ hk)
  · rintro (hu | ⟨k, hk, t, ht, h⟩)
    · exact ⟨_, hu, _, .inr rfl, .inl (.inl rfl)⟩
    · exact ⟨k, hk, t, .inl ht, h⟩

/-- **A used key is admitted if and only if a key is kept.** -/
theorem exists_admitted_iff_narrowKeys_ne_nil (hne : touched ≠ []) (hall : .bare .all ∉ touched)
    (hkeys : ∀ k, k ∈ keys ↔ k ∈ touched ∨ k = .bare .all) :
    (∃ k ∈ used, (UsageFilter.ofKeys keys).admits k = true) ↔ narrowKeys used touched ≠ [] := by
  rw [exists_admitted_iff hkeys]
  by_cases hu : .bare .all ∈ used
  · rw [narrowKeys_of_used_all hu]
    exact ⟨fun _ => hne, fun _ => .inl hu⟩
  · rw [or_iff_right hu]
    constructor
    · rintro ⟨k, hk, t, ht, h | h⟩
      · exact List.ne_nil_of_mem ((mem_narrowKeys hu hall).mpr (.inl ⟨ht, k, hk, h⟩))
      · exact List.ne_nil_of_mem ((mem_narrowKeys hu hall).mpr (.inr ⟨hk, t, ht, h⟩))
    · intro h
      obtain ⟨k, hk⟩ := List.exists_mem_of_ne_nil _ h
      rcases (mem_narrowKeys hu hall).mp hk with ⟨hk, u, hu, h⟩ | ⟨hk, t, ht, h⟩
      · exact ⟨u, hu, k, hk, .inl h⟩
      · exact ⟨k, hk, t, ht, .inr h⟩

/-! ### Pages -/

variable {e : EntityId} {p : PageUsages}

theorem isEmpty_apply_iff (n : Narrowing) (hp : ∀ u ∈ p.toList, u.entity = e) :
    (n.apply p).isEmpty = true ↔ narrowKeys (p.usages.keysOf e) (n.get e) = [] := by
  rw [PageUsages.isEmpty_iff, List.eq_nil_iff_forall_not_mem, List.eq_nil_iff_forall_not_mem]
  constructor
  · exact fun h k hk => h ⟨e, k⟩ ((n.mem_apply_of_entity hp).mpr ⟨rfl, hk⟩)
  · exact fun h u hu => h u.key ((n.mem_apply_of_entity hp).mp hu).2

theorem exists_usage_iff (hp : ∀ u ∈ p.toList, u.entity = e) (P : AspectKey → Prop) :
    (∃ u ∈ p.toList, P u.key) ↔ ∃ k ∈ p.usages.keysOf e, P k := by
  constructor
  · rintro ⟨u, hu, h⟩
    obtain rfl := hp u hu
    exact ⟨u.key, p.usages.mem_keysOf.mpr hu, h⟩
  · rintro ⟨k, hk, h⟩
    exact ⟨⟨e, k⟩, p.usages.mem_keysOf.mp hk, h⟩

/-- **The lookup and narrowing agree.** Of the pages that use an entity, the filter of the touched keys and
the key of everything finds exactly those that narrowing to the touched keys does not empty. -/
theorem lookup_finds_iff_narrowing_keeps (n : Narrowing) (hp : ∀ u ∈ p.toList, u.entity = e)
    (hne : touched ≠ []) (hall : .bare .all ∉ touched) :
    (∃ u ∈ p.toList, (UsageFilter.ofKeys (touched ++ [.bare .all])).admits u.key = true) ↔
      ((n.set e touched).apply p).isEmpty = false := by
  have hkeys : ∀ k, k ∈ touched ++ [.bare .all] ↔ k ∈ distinct touched ∨ k = .bare .all := by
    intro k
    rw [List.mem_append, List.mem_singleton, mem_distinct]
  have hne' : distinct touched ≠ [] := by
    obtain ⟨t, ht⟩ := List.exists_mem_of_ne_nil _ hne
    exact List.ne_nil_of_mem (mem_distinct.mpr ht)
  have hall' : .bare .all ∉ distinct touched := fun h => hall (mem_distinct.mp h)
  rw [exists_usage_iff hp fun k =>
      (UsageFilter.ofKeys (touched ++ [AspectKey.bare .all])).admits k = true,
    exists_admitted_iff_narrowKeys_ne_nil hne' hall' hkeys, ← Bool.not_eq_true, isEmpty_apply_iff _ hp,
    get_set_self]

/-- A page that uses all labels, and one label that is touched. -/
theorem lookup_finds_iff_narrowing_keeps_label :
    let e : EntityId := ⟨"Q1", by decide⟩
    let p := PageUsages.ofList 7 [⟨e, .bare .label⟩]
    let touched : List AspectKey := [⟨.label, some "en", by rintro _ ⟨⟩; decide⟩, .bare .other]
    ((∀ u ∈ p.toList, u.entity = e) ∧ touched ≠ [] ∧ .bare .all ∉ touched) ∧
      (∃ u ∈ p.toList, (UsageFilter.ofKeys (touched ++ [.bare .all])).admits u.key = true) ∧
      ((Narrowing.empty.set e touched).apply p).isEmpty = false := by
  intro e p touched
  have hp : ∀ u ∈ p.toList, u.entity = e := by decide
  have hne : touched ≠ [] := by decide
  have hall : .bare .all ∉ touched := by decide
  have h := lookup_finds_iff_narrowing_keeps Narrowing.empty hp hne hall
  exact ⟨⟨hp, hne, hall⟩, h.mpr (by decide), by decide⟩

end Narrowing

end PageInvalidation
