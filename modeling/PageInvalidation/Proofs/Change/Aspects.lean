import PageInvalidation.Change.Aspects
import PageInvalidation.Proofs.Aspect.Key
import PageInvalidation.Proofs.Change.Diff
import PageInvalidation.Proofs.Outcome

/-! # Which aspects a change touches

The keys of a change are of a few kinds only (`ChangedAspects.touchable_of_mem`). Whether *other* is among
them is decided by counting: all leaves, less those of the site links, less one for each label. The count
comes out right if every label has a leaf; a label whose change holds none hides a leaf of another field
(`ChangedAspects.other_touched_iff`). -/

namespace PageInvalidation

/-! ### Entries apart and others -/

namespace Diff

/-- A key is that of a field that is told apart: the labels and, in the diff of an item, the site links. -/
def IsApart (d : Diff) (k : DiffKey) : Prop :=
  k = .name DiffField.labels.key ∨ d.form = .item ∧ k = .name DiffField.siteLinks.key

instance (d : Diff) (k : DiffKey) : Decidable (d.IsApart k) := inferInstanceAs (Decidable (_ ∨ _))

/-- The number of leaves in the fields that are not told apart. -/
def otherLeaves (d : Diff) : ℕ :=
  DiffOp.countEntries (d.entries.filter fun e => !decide (d.IsApart e.1))

variable {d : Diff}

theorem otherLeaves_pos_iff : 0 < d.otherLeaves ↔ ∃ e ∈ d.entries, ¬d.IsApart e.1 ∧ e.2.HasLeaf := by
  simp [otherLeaves, DiffOp.countEntries_pos_iff, and_assoc]

/-- The number of leaves under the key of a field. -/
def leavesIn (d : Diff) (f : DiffField) : ℕ :=
  DiffOp.countEntries (d.entries.filter fun e => e.1 = .name f.key)

/-- **The leaves of a diff** are those of its labels, of its site links if it is of an item, and the others. -/
theorem count_eq_add (d : Diff) : d.count =
    d.leavesIn .labels + (if d.form = .item then d.leavesIn .siteLinks else 0) + d.otherLeaves := by
  have hlabels : (d.entries.filter fun e => decide (d.IsApart e.1)).filter
      (fun e => decide (e.1 = .name DiffField.labels.key)) =
        d.entries.filter fun e => e.1 = .name DiffField.labels.key := by
    rw [List.filter_filter]
    refine List.filter_congr fun e _ => ?_
    by_cases h : e.1 = .name DiffField.labels.key <;> simp [IsApart, h]
  have hlinks : (d.entries.filter fun e => decide (d.IsApart e.1)).filter
      (fun e => !decide (e.1 = .name DiffField.labels.key)) =
        if d.form = .item then d.entries.filter fun e => e.1 = .name DiffField.siteLinks.key else [] := by
    have hne : DiffKey.name DiffField.labels.key ≠ .name DiffField.siteLinks.key := by decide
    rw [List.filter_filter]
    split
    · rename_i hitem
      refine List.filter_congr fun e _ => ?_
      by_cases h : e.1 = .name DiffField.labels.key <;> simp [IsApart, hitem, h, hne]
    · rename_i hitem
      refine List.filter_eq_nil_iff.mpr fun e _ => ?_
      simp [IsApart, hitem]
  rw [count, ← DiffOp.countEntries_filter_add fun e => decide (d.IsApart e.1),
    ← DiffOp.countEntries_filter_add (fun e => decide (e.1 = .name DiffField.labels.key))
      (d.entries.filter fun e => decide (d.IsApart e.1)), hlabels, hlinks]
  split <;> rfl

end Diff

namespace ChangedAspects

variable {site : Text.CodeText} {d labels : Diff} {keys : List AspectKey} {part : Part} {k : AspectKey}

/-! ### The parts -/

theorem siteLinkPart_eq_ok : siteLinkPart site d = .ok part ↔
    d.form ≠ .item ∧ part = ⟨[], 0⟩ ∨ d.form = .item ∧ ∃ links, d.field .siteLinks = .ok links ∧
      part = if links.isEmpty then ⟨[], 0⟩ else ⟨siteLinkKeys site links, links.count⟩ := by
  unfold siteLinkPart
  split
  · rename_i hitem
    rw [Outcome.map_eq_ok, or_iff_right fun h => h.1 hitem, and_iff_right hitem]
    exact exists_congr fun links => and_congr Iff.rfl eq_comm
  · rename_i hitem
    rw [or_iff_left fun h => hitem h.1, and_iff_right hitem, Except.ok.injEq, eq_comm]

theorem leaves_siteLinkPart (hd : d.keys.Nodup) (h : siteLinkPart site d = .ok part) :
    part.leaves = if d.form = .item then d.leavesIn .siteLinks else 0 := by
  rcases siteLinkPart_eq_ok.mp h with ⟨hform, rfl⟩ | ⟨hitem, links, hlinks, rfl⟩
  · rw [if_neg hform]
  · rw [if_pos hitem, Diff.leavesIn, Diff.countEntries_field hd hlinks]
    split
    · rename_i hempty
      rw [Diff.count, List.isEmpty_iff.mp hempty]
      rfl
    · rfl

theorem siteLink_mem_siteLinkKeys (site : Text.CodeText) (links : Diff) :
    .bare .siteLink ∈ siteLinkKeys site links := by
  unfold siteLinkKeys
  split
  · split <;> exact List.mem_cons_self
  · exact List.mem_cons_self

/-- The title is touched by a change of the own site's link, unless it is one of badges only. -/
theorem title_mem_siteLinkKeys {links : Diff} : .bare .title ∈ siteLinkKeys site links ↔
    ∃ op, links.get? (.name site) = some op ∧ badgesOnly op = false := by
  have hne : AspectKey.bare .title ≠ .bare .siteLink := by decide
  unfold siteLinkKeys
  cases links.get? (.name site) with
  | none => simp [hne]
  | some op => cases h : badgesOnly op <;> simp [hne, h]

theorem leaves_eq_zero_of_siteLinkPart (h : siteLinkPart site d = .ok part) (hk : part.keys = []) :
    part.leaves = 0 := by
  rcases siteLinkPart_eq_ok.mp h with ⟨-, rfl⟩ | ⟨-, links, -, rfl⟩
  · rfl
  · split at hk
    · rename_i hempty
      rw [if_pos hempty]
    · have hmem := siteLink_mem_siteLinkKeys site links
      rw [show siteLinkKeys site links = [] from hk] at hmem
      cases hmem

theorem mem_keys_siteLinkPart (h : siteLinkPart site d = .ok part) (hk : k ∈ part.keys) :
    k = .bare .siteLink ∨ k = .bare .title := by
  rcases siteLinkPart_eq_ok.mp h with ⟨-, rfl⟩ | ⟨-, links, -, rfl⟩
  · cases hk
  · split at hk
    · cases hk
    · unfold siteLinkKeys at hk
      split at hk
      · split at hk <;> simp at hk <;> simp [hk]
      · exact .inl (List.mem_singleton.mp hk)

theorem title_mem_siteLinkPart (h : siteLinkPart site d = .ok part) : .bare .title ∈ part.keys ↔
    d.form = .item ∧ ∃ links op, d.field .siteLinks = .ok links ∧ links.get? (.name site) = some op ∧
      badgesOnly op = false := by
  rcases siteLinkPart_eq_ok.mp h with ⟨hform, rfl⟩ | ⟨hitem, links, hlinks, rfl⟩
  · exact ⟨nofun, fun h => absurd h.1 hform⟩
  · simp only [hitem, hlinks, Except.ok.injEq, true_and, exists_and_left, exists_eq_left']
    split
    · rename_i hempty
      refine ⟨nofun, ?_⟩
      rintro ⟨op, hop, -⟩
      have hmem := Diff.mem_of_get?_eq_some hop
      rw [List.isEmpty_iff.mp hempty] at hmem
      cases hmem
    · exact title_mem_siteLinkKeys

theorem siteLink_mem_of_title_mem_siteLinkPart (h : siteLinkPart site d = .ok part)
    (htitle : .bare .title ∈ part.keys) : .bare .siteLink ∈ part.keys := by
  rcases siteLinkPart_eq_ok.mp h with ⟨-, rfl⟩ | ⟨-, links, -, rfl⟩
  · cases htitle
  · split at htitle
    · cases htitle
    · rename_i hne
      rw [if_neg hne]
      exact siteLink_mem_siteLinkKeys site links

theorem labelPart_eq_ok : labelPart d = .ok part ↔ ∃ labels keys, d.field .labels = .ok labels ∧
    labels.keys.mapM labelKey = .ok keys ∧ part = ⟨keys, keys.length⟩ := by
  unfold labelPart
  simp only [Outcome.bind_eq_ok, Outcome.mapError_eq_ok]
  constructor
  · rintro ⟨labels, hl, keys, hk, h⟩
    exact ⟨labels, keys, hl, hk, (Except.ok.inj h).symm⟩
  · rintro ⟨labels, keys, hl, hk, rfl⟩
    exact ⟨labels, hl, keys, hk, rfl⟩

theorem make_eq_ok {a : Aspect} {m : Text.CodeText} (h : AspectKey.make a (some m) = .ok k) :
    k.aspect = a ∧ k.isModified = true := by
  obtain ⟨ha, hm⟩ := Prod.mk.inj (AspectKey.make_eq_ok_iff.mp h)
  exact ⟨ha, congrArg Option.isSome hm⟩

theorem labelKey_eq_ok {key : DiffKey} (h : labelKey key = .ok k) :
    k.aspect = .label ∧ k.isModified = true := by
  cases key with
  | name language => exact make_eq_ok h
  | index n => exact make_eq_ok h

theorem mem_keys_labelPart (h : labelPart d = .ok part) (hk : k ∈ part.keys) :
    k.aspect = .label ∧ k.isModified = true := by
  obtain ⟨labels, keys, -, hkeys, rfl⟩ := labelPart_eq_ok.mp h
  obtain ⟨key, -, hkey⟩ := (Outcome.mem_of_mapM_eq_ok hkeys).mp hk
  exact labelKey_eq_ok hkey

theorem leaves_labelPart (h : labelPart d = .ok part) :
    ∃ labels, d.field .labels = .ok labels ∧ part.leaves = labels.entries.length := by
  obtain ⟨labels, keys, hlabels, hkeys, rfl⟩ := labelPart_eq_ok.mp h
  refine ⟨labels, hlabels, ?_⟩
  rw [← (Outcome.mapM_eq_ok.mp hkeys).length_eq, Diff.keys, List.length_map]

theorem mem_otherKeys {total : ℕ} {parts : List Part} : k ∈ otherKeys total parts ↔
    k = .bare .other ∧ accounted parts < total := by
  unfold otherKeys
  split
  · rw [List.mem_singleton, iff_self_and]
    omega
  · refine ⟨nofun, fun h => ?_⟩
    omega

/-! ### The keys of a diff -/

/-- The keys that a change can touch: of the aspects that can be told apart further only labels, and those
never as a whole. -/
inductive Touchable : AspectKey → Prop
  | siteLink : Touchable (.bare .siteLink)
  | title : Touchable (.bare .title)
  | other : Touchable (.bare .other)
  | label {k : AspectKey} (ha : k.aspect = .label) (hm : k.isModified = true) : Touchable k

/-- A diff without leaves touches other; one with leaves touches what its parts do, and other if they do
not account for all leaves. -/
theorem ofDiff_eq_ok (h : ofDiff site d = .ok keys) : d.count = 0 ∧ keys = [.bare .other] ∨
    d.count ≠ 0 ∧ ∃ links labels, siteLinkPart site d = .ok links ∧ labelPart d = .ok labels ∧
      ∀ k, k ∈ keys ↔ k ∈ links.keys ∨ k ∈ labels.keys ∨
        k = .bare .other ∧ links.leaves + labels.leaves < d.count := by
  unfold ofDiff at h
  split at h
  · rename_i h0
    exact .inl ⟨h0, (Except.ok.inj h).symm⟩
  · rename_i h0
    obtain ⟨links, hlinks, h⟩ := Outcome.bind_eq_ok.mp h
    obtain ⟨labels, hlabels, h⟩ := Outcome.bind_eq_ok.mp h
    refine .inr ⟨h0, links, labels, Outcome.mapError_eq_ok.mp hlinks, hlabels, fun k => ?_⟩
    cases h
    rw [mem_distinct, List.mem_append, List.mem_append, mem_otherKeys, or_assoc]
    rfl

/-- **The keys that a diff touches are of few kinds.** -/
theorem touchable_of_mem (h : ofDiff site d = .ok keys) (hk : k ∈ keys) : Touchable k := by
  rcases ofDiff_eq_ok h with ⟨-, rfl⟩ | ⟨-, links, labels, hlinks, hlabels, hmem⟩
  · rw [List.mem_singleton.mp hk]
    exact .other
  · rcases (hmem k).mp hk with hk | hk | ⟨rfl, -⟩
    · rcases mem_keys_siteLinkPart hlinks hk with rfl | rfl
      · exact .siteLink
      · exact .title
    · obtain ⟨ha, hm⟩ := mem_keys_labelPart hlabels hk
      exact .label ha hm
    · exact .other

theorem nodup_of_ofDiff (h : ofDiff site d = .ok keys) : keys.Nodup := by
  unfold ofDiff at h
  split at h
  · cases h
    exact List.nodup_singleton _
  · obtain ⟨links, -, h⟩ := Outcome.bind_eq_ok.mp h
    obtain ⟨labels, -, h⟩ := Outcome.bind_eq_ok.mp h
    cases h
    exact nodup_distinct _

theorem title_mem_iff {links labels : Part} (hlabels : labelPart d = .ok labels)
    (hmem : ∀ k, k ∈ keys ↔ k ∈ links.keys ∨ k ∈ labels.keys ∨
      k = .bare .other ∧ links.leaves + labels.leaves < d.count) :
    .bare .title ∈ keys ↔ .bare .title ∈ links.keys := by
  have hlabel : .bare .title ∉ labels.keys := fun hk => by
    cases (mem_keys_labelPart hlabels hk).2
  have hother : AspectKey.bare .title ≠ .bare .other := by decide
  simp [hmem, hlabel, hother]

theorem siteLink_mem_of_title_mem (h : ofDiff site d = .ok keys) (htitle : .bare .title ∈ keys) :
    .bare .siteLink ∈ keys := by
  rcases ofDiff_eq_ok h with ⟨-, rfl⟩ | ⟨-, links, labels, hlinks, hlabels, hmem⟩
  · exact absurd htitle (by decide)
  · have hpart := (title_mem_iff hlabels hmem).mp htitle
    exact (hmem _).mpr (.inl (siteLink_mem_of_title_mem_siteLinkPart hlinks hpart))

/-- **A change touches something.** -/
theorem ofDiff_ne_nil (h : ofDiff site d = .ok keys) : keys ≠ [] := by
  rcases ofDiff_eq_ok h with ⟨-, rfl⟩ | ⟨h0, links, labels, hlinks, hlabels, hmem⟩
  · exact List.cons_ne_nil _ _
  · by_cases hk : links.keys = [] ∧ labels.keys = []
    · -- parts without keys account for no leaf, so some leaf is left over
      have hleaves : links.leaves + labels.leaves = 0 := by
        obtain ⟨sub, found, -, -, rfl⟩ := labelPart_eq_ok.mp hlabels
        rw [leaves_eq_zero_of_siteLinkPart hlinks hk.1, Nat.zero_add]
        exact List.length_eq_zero_iff.mpr hk.2
      exact List.ne_nil_of_mem ((hmem _).mpr (.inr (.inr ⟨rfl, by omega⟩)))
    · rcases not_and_or.mp hk with hk | hk
      · obtain ⟨k, hk⟩ := List.exists_mem_of_ne_nil _ hk
        exact List.ne_nil_of_mem ((hmem k).mpr (.inl hk))
      · obtain ⟨k, hk⟩ := List.exists_mem_of_ne_nil _ hk
        exact List.ne_nil_of_mem ((hmem k).mpr (.inr (.inl hk)))

theorem Touchable.ne_all {k : AspectKey} (h : Touchable k) : k ≠ .bare .all := by
  rintro rfl
  cases h with
  | label ha => cases ha

theorem Touchable.eq_of_covers {k k' : AspectKey} (h : Touchable k) (hc : k.Covers k') : k' = k := by
  cases h with
  | siteLink => exact (AspectKey.bare_covers rfl).mp hc
  | title => exact (AspectKey.bare_covers rfl).mp hc
  | other => exact (AspectKey.bare_covers rfl).mp hc
  | label ha hm =>
    rcases hc with rfl | rfl
    · rfl
    · cases hm

theorem Touchable.aspect_ne {k : AspectKey} (h : Touchable k) :
    k.aspect ≠ .description ∧ k.aspect ≠ .statement := by
  cases h with
  | label ha => rw [ha]; decide
  | _ => decide

/-! ### Other -/

/-- **Other is touched** by a diff with leaves if and only if its labels and its other fields hold more leaves
than there are labels. -/
theorem other_mem_iff (hd : d.keys.Nodup) (h : ofDiff site d = .ok keys) (h0 : d.count ≠ 0) :
    ∃ labels, d.field .labels = .ok labels ∧
      (.bare .other ∈ keys ↔ labels.entries.length < labels.count + d.otherLeaves) := by
  rcases ofDiff_eq_ok h with ⟨hzero, -⟩ | ⟨-, links, labels, hlinks, hlabels, hmem⟩
  · exact absurd hzero h0
  · obtain ⟨sub, hsub, hleaves⟩ := leaves_labelPart hlabels
    refine ⟨sub, hsub, ?_⟩
    have hcount := d.count_eq_add
    rw [Diff.leavesIn, Diff.countEntries_field hd hsub, ← leaves_siteLinkPart hd hlinks] at hcount
    have hnot : .bare .other ∉ links.keys ∧ .bare .other ∉ labels.keys := by
      refine ⟨fun hk => ?_, fun hk => ?_⟩
      · rcases mem_keys_siteLinkPart hlinks hk with hk | hk <;> cases AspectKey.bare_injective hk
      · cases (mem_keys_labelPart hlabels hk).2
    rw [hmem, or_iff_right hnot.1, or_iff_right hnot.2, hleaves, hcount]
    constructor
    · rintro ⟨-, hlt⟩
      omega
    · intro hlt
      exact ⟨rfl, by omega⟩

theorem other_mem_of_otherLeaves_pos (hd : d.keys.Nodup) (h : ofDiff site d = .ok keys)
    (hleaf : 0 < d.otherLeaves) : ∃ labels, d.field .labels = .ok labels ∧
      (.bare .other ∈ keys ↔ labels.entries.length < labels.count + d.otherLeaves) ∧
      ((∀ e ∈ labels.entries, e.2.HasLeaf) → .bare .other ∈ keys) := by
  have h0 : d.count ≠ 0 := by
    have hcount := d.count_eq_add
    omega
  obtain ⟨labels, hlabels, hiff⟩ := other_mem_iff hd h h0
  refine ⟨labels, hlabels, hiff, fun hall => hiff.mpr ?_⟩
  have hle : labels.entries.length ≤ labels.count := DiffOp.length_le_countEntries hall
  omega

end ChangedAspects

end PageInvalidation
