import PageInvalidation.Proofs.Change.Aspects

/-! # Which changes cannot be classified

A diff with leaves is classified unless its labels, or the site links of an item, stand there as a leaf
(`EntityChange.Malformed`), or a label has no language (`EntityChange.Unnamed`). A diff without leaves is never
looked into. -/

namespace PageInvalidation

/-! ### Fields that are leaves -/

namespace Diff

variable {d : Diff} {field : DiffField}

/-- A field stands there as a leaf. -/
def Misplaced (d : Diff) (field : DiffField) : Prop :=
  ∃ op, d.get? (.name field.key) = some op ∧ op.isLeaf = true

/-- A leaf stands somewhere in the diff. -/
def HasLeaf (d : Diff) : Prop := ∃ e ∈ d.entries, e.2.HasLeaf

theorem hasLeaf_iff : d.HasLeaf ↔ d.count ≠ 0 := by
  rw [HasLeaf, ← DiffOp.countEntries_pos_iff, Nat.pos_iff_ne_zero, count]

theorem Misplaced.hasLeaf (h : d.Misplaced field) : d.HasLeaf := by
  obtain ⟨op, hop, hleaf⟩ := h
  exact ⟨_, mem_of_get?_eq_some hop, .leaf hleaf⟩

theorem toDiff?_eq_none_iff {op : DiffOp} : op.toDiff? = none ↔ op.isLeaf = true := by
  cases op <;> simp [DiffOp.toDiff?, DiffOp.isLeaf]

theorem Misplaced.field_eq (h : d.Misplaced field) : ∃ name, d.field field = .error (.notNested field name) := by
  obtain ⟨op, hop, hleaf⟩ := h
  refine ⟨op.typeName, ?_⟩
  simp [Diff.field, hop, toDiff?_eq_none_iff.mpr hleaf]

theorem exists_field (h : ¬d.Misplaced field) : ∃ sub, d.field field = .ok sub := by
  cases hop : d.get? (.name field.key) with
  | none => exact ⟨_, field_eq_ok.mpr (.inl ⟨hop, rfl⟩)⟩
  | some op =>
    cases hd : op.toDiff? with
    | none => exact absurd ⟨op, hop, toDiff?_eq_none_iff.mp hd⟩ h
    | some sub => exact ⟨sub, by simp [Diff.field, hop, hd]⟩

end Diff

/-! ### Labels without a language -/

/-- A key that names no language: the empty text, or the position 0. -/
def DiffKey.IsBlank (k : DiffKey) : Prop := k = .name [] ∨ k = .index 0

namespace EntityChange

/-- The labels, or the site links in the diff of an item, stand there as a leaf. -/
def Malformed (c : EntityChange) : Prop :=
  c.diff.Misplaced .labels ∨ c.diff.form = .item ∧ c.diff.Misplaced .siteLinks

/-- The diff has a leaf, and among its labels is one without a language. -/
def Unnamed (c : EntityChange) : Prop :=
  c.diff.HasLeaf ∧ ∃ labels, c.diff.field .labels = .ok labels ∧ ∃ k ∈ labels.keys, k.IsBlank

end EntityChange

namespace ChangedAspects

variable {d labels : Diff} {k : DiffKey} {c : EntityChange}

theorem labelKey_of_isBlank (h : k.IsBlank) : labelKey k = .error .emptyModifier := by
  rcases h with rfl | rfl
  · rfl
  · rfl

theorem make_label {language : Text.CodeText} (h : language ≠ []) :
    ∃ key, AspectKey.make .label (some language) = .ok key := by
  simp [AspectKey.make, h, Aspect.acceptsModifier]

theorem ofString_toString_ne_nil (n : ℤ) : Text.CodeText.ofString (toString n) ≠ [] := by
  intro h
  have hchars : (toString n).toList = [] := List.map_eq_nil_iff.mp h
  cases n with
  | ofNat m =>
    have hdigits : Nat.toDigits 10 m = [] := String.toList_ofList.symm.trans hchars
    exact Nat.toDigits_ne_nil hdigits
  | negSucc m =>
    have hsign : toString (Int.negSucc m) = "-" ++ Nat.repr (m + 1) := rfl
    rw [hsign] at hchars
    simp at hchars

theorem exists_labelKey (h : ¬k.IsBlank) : ∃ key, labelKey k = .ok key := by
  cases k with
  | name language => exact make_label fun hempty => h (.inl (hempty ▸ rfl))
  | index n =>
    have hn : n ≠ 0 := fun hzero => h (.inr (hzero ▸ rfl))
    simp only [labelKey, if_neg hn]
    exact make_label (ofString_toString_ne_nil n)

/-! ### The parts -/

theorem siteLinkPart_of_misplaced (site : Text.CodeText) (hitem : d.form = .item) (h : d.Misplaced .siteLinks) :
    ∃ name, siteLinkPart site d = .error (.notNested .siteLinks name) := by
  obtain ⟨name, hname⟩ := h.field_eq
  refine ⟨name, ?_⟩
  rw [siteLinkPart, if_pos hitem, hname]
  rfl

theorem exists_siteLinkPart (site : Text.CodeText) (h : ¬(d.form = .item ∧ d.Misplaced .siteLinks)) :
    ∃ part, siteLinkPart site d = .ok part := by
  by_cases hitem : d.form = .item
  · obtain ⟨links, hlinks⟩ := Diff.exists_field fun hm => h ⟨hitem, hm⟩
    exact ⟨_, siteLinkPart_eq_ok.mpr (.inr ⟨hitem, links, hlinks, rfl⟩)⟩
  · exact ⟨_, siteLinkPart_eq_ok.mpr (.inl ⟨hitem, rfl⟩)⟩

theorem labelPart_of_misplaced (h : d.Misplaced .labels) :
    ∃ name, labelPart d = .error (.diff (.notNested .labels name)) := by
  obtain ⟨name, hname⟩ := h.field_eq
  refine ⟨name, ?_⟩
  rw [labelPart, hname]
  rfl

theorem labelPart_of_isBlank (hlabels : d.field .labels = .ok labels) (h : ∃ k ∈ labels.keys, k.IsBlank) :
    ∃ e, labelPart d = .error (.key e) := by
  obtain ⟨k, hk, hblank⟩ := h
  obtain ⟨-, -, e, -, hmap⟩ := Outcome.exists_mapM_eq_error ⟨k, hk, _, labelKey_of_isBlank hblank⟩
  refine ⟨e, ?_⟩
  rw [labelPart, hlabels]
  simp only [Except.mapError, bind, Except.bind, hmap]

theorem exists_labelPart (hlabels : d.field .labels = .ok labels) (h : ∀ k ∈ labels.keys, ¬k.IsBlank) :
    ∃ part, labelPart d = .ok part := by
  obtain ⟨keys, hkeys⟩ := Outcome.exists_mapM_eq_ok fun k hk => exists_labelKey (h k hk)
  exact ⟨_, labelPart_eq_ok.mpr ⟨labels, keys, hlabels, hkeys, rfl⟩⟩

/-! ### Changes -/

theorem ofChange_of_malformed (site : Text.CodeText) (h : c.Malformed) :
    ∃ e, ofChange site c = .error e ∧ e.kind = "UnknownDiffOpError" := by
  have h0 : c.diff.count ≠ 0 := by
    rcases h with h | ⟨-, h⟩
    · exact Diff.hasLeaf_iff.mp h.hasLeaf
    · exact Diff.hasLeaf_iff.mp h.hasLeaf
  rw [ofChange, ofDiff, if_neg h0]
  by_cases hlinks : c.diff.form = .item ∧ c.diff.Misplaced .siteLinks
  · obtain ⟨name, hname⟩ := siteLinkPart_of_misplaced site hlinks.1 hlinks.2
    rw [hname]
    exact ⟨_, rfl, rfl⟩
  · obtain ⟨part, hpart⟩ := exists_siteLinkPart site hlinks
    obtain ⟨name, hname⟩ := labelPart_of_misplaced (h.resolve_right hlinks)
    rw [hpart, hname]
    exact ⟨_, rfl, rfl⟩

theorem ofChange_of_unnamed (site : Text.CodeText) (hm : ¬c.Malformed) (h : c.Unnamed) :
    ∃ e, ofChange site c = .error e ∧ e.kind = "AspectKeyFormatError" := by
  obtain ⟨hleaf, labels, hlabels, hblank⟩ := h
  obtain ⟨part, hpart⟩ := exists_siteLinkPart site fun h => hm (.inr h)
  obtain ⟨e, he⟩ := labelPart_of_isBlank hlabels hblank
  rw [ofChange, ofDiff, if_neg (Diff.hasLeaf_iff.mp hleaf), hpart, he]
  exact ⟨_, rfl, rfl⟩

theorem exists_ofChange (site : Text.CodeText) (hm : ¬c.Malformed) (hu : ¬c.Unnamed) :
    ∃ touched, ofChange site c = .ok touched := by
  by_cases h0 : c.diff.count = 0
  · exact ⟨_, by rw [ofChange, ofDiff, if_pos h0]⟩
  · obtain ⟨links, hlinks⟩ := exists_siteLinkPart site fun h => hm (.inr h)
    obtain ⟨sub, hsub⟩ := Diff.exists_field fun h => hm (.inl h)
    obtain ⟨labels, hlabels⟩ := exists_labelPart hsub fun k hk hblank =>
      hu ⟨Diff.hasLeaf_iff.mpr h0, sub, hsub, k, hk, hblank⟩
    rw [ofChange, ofDiff, if_neg h0, hlinks, hlabels]
    exact ⟨_, rfl⟩

end ChangedAspects

end PageInvalidation
