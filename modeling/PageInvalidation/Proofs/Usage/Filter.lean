import PageInvalidation.Proofs.Aspect.Key
import PageInvalidation.Proofs.Keyed
import PageInvalidation.Usage.Filter

/-! # What a filter admits

A filter made of a list of keys admits the keys that cover one of the list or are covered by one
(`UsageFilter.admits_ofKeys`): of two keys with the same aspect, one with and one without a modifier,
either finds the other. -/

namespace PageInvalidation.UsageFilter

variable {k : AspectKey} {a : Aspect}

/-! ### One key more -/

theorem add_of_isModified (f : UsageFilter) {key : AspectKey} (h : key.isModified = true) :
    f.add key = ⟨insertBy id (insertBy id f.exact key) key.stripped, f.anyModifier⟩ := by
  simp [add, h]

theorem add_bare (f : UsageFilter) (b : Aspect) : f.add (.bare b) =
    ⟨insertBy id f.exact (.bare b),
      if b.acceptsModifier then insertBy id f.anyModifier b else f.anyModifier⟩ := by
  cases h : b.acceptsModifier <;> simp [add, h]

theorem mem_exact_add (f : UsageFilter) (key : AspectKey) :
    k ∈ (f.add key).exact ↔ k ∈ f.exact ∨ k.Covers key := by
  cases hm : key.isModified with
  | true =>
    rw [f.add_of_isModified hm, mem_insertBy, mem_insertBy, or_assoc]
    rfl
  | false =>
    rw [AspectKey.eq_bare_of_not_isModified hm, add_bare, mem_insertBy, AspectKey.covers_bare]

theorem mem_anyModifier_add (f : UsageFilter) (key : AspectKey) :
    a ∈ (f.add key).anyModifier ↔
      a ∈ f.anyModifier ∨ a.acceptsModifier = true ∧ .bare a = key := by
  cases hm : key.isModified with
  | true =>
    rw [f.add_of_isModified hm]
    refine ⟨.inl, fun h => h.elim id ?_⟩
    rintro ⟨-, rfl⟩
    cases hm
  | false =>
    rw [AspectKey.eq_bare_of_not_isModified hm, add_bare]
    cases hb : key.aspect.acceptsModifier with
    | true =>
      rw [if_pos rfl, mem_insertBy]
      refine or_congr Iff.rfl ⟨?_, fun h => AspectKey.bare_injective h.2⟩
      rintro rfl
      exact ⟨hb, rfl⟩
    | false =>
      refine ⟨.inl, fun h => h.elim id fun ⟨ha, hk⟩ => ?_⟩
      rw [AspectKey.bare_injective hk, hb] at ha
      cases ha

/-! ### A list of keys -/

theorem mem_exact_foldl : ∀ (keys : List AspectKey) (f : UsageFilter),
    k ∈ (keys.foldl add f).exact ↔ k ∈ f.exact ∨ ∃ key ∈ keys, k.Covers key
  | [], f => by simp
  | key :: keys, f => by
    rw [List.foldl_cons, mem_exact_foldl keys, mem_exact_add, or_assoc, List.exists_mem_cons_iff]

theorem mem_anyModifier_foldl : ∀ (keys : List AspectKey) (f : UsageFilter),
    a ∈ (keys.foldl add f).anyModifier ↔
      a ∈ f.anyModifier ∨ a.acceptsModifier = true ∧ .bare a ∈ keys
  | [], f => by simp
  | key :: keys, f => by
    rw [List.foldl_cons, mem_anyModifier_foldl keys, mem_anyModifier_add, or_assoc, ← and_or_left,
      List.mem_cons]

theorem mem_exact_ofKeys {keys : List AspectKey} : k ∈ (ofKeys keys).exact ↔ ∃ key ∈ keys, k.Covers key := by
  rw [ofKeys, mem_exact_foldl]
  simp [empty]

theorem exact_ofKeys_eq_nil {keys : List AspectKey} : (ofKeys keys).exact = [] ↔ keys = [] := by
  constructor
  · intro h
    refine List.eq_nil_iff_forall_not_mem.mpr fun key hkey => ?_
    have hmem : key ∈ (ofKeys keys).exact := mem_exact_ofKeys.mpr ⟨key, hkey, .inl rfl⟩
    rw [h] at hmem
    cases hmem
  · rintro rfl
    rfl

/-- **What the filter of a list of keys admits.** -/
theorem admits_ofKeys {keys : List AspectKey} :
    (ofKeys keys).admits k = true ↔ ∃ key ∈ keys, k.Covers key ∨ key.Covers k := by
  have hany : k.aspect ∈ (ofKeys keys).anyModifier ↔
      k.aspect.acceptsModifier = true ∧ .bare k.aspect ∈ keys := by
    rw [ofKeys, mem_anyModifier_foldl]
    simp [empty]
  simp only [admits, Bool.or_eq_true, Bool.and_eq_true, decide_eq_true_eq, mem_exact_ofKeys, hany]
  constructor
  · rintro (⟨key, hkey, h⟩ | ⟨-, -, h⟩)
    · exact ⟨key, hkey, .inl h⟩
    · exact ⟨_, h, .inr (.inr rfl)⟩
  · rintro ⟨key, hkey, h | h⟩
    · exact .inl ⟨key, hkey, h⟩
    · cases hm : k.isModified with
      | true =>
        rcases h with rfl | rfl
        · exact .inl ⟨key, hkey, .inl rfl⟩
        · exact .inr ⟨rfl, AspectKey.acceptsModifier_of_isModified hm, hkey⟩
      | false =>
        rw [AspectKey.covers_of_not_isModified hm] at h
        exact .inl ⟨key, hkey, .inl h.symm⟩

end PageInvalidation.UsageFilter
