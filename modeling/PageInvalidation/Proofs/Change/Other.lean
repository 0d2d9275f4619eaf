import PageInvalidation.Proofs.Change.Aspects
import PageInvalidation.Proofs.Wire.Decoding

/-! # When a leaf of another field goes unseen

A leaf outside the labels and the site links should be reported as *other*. It is if every label holds a leaf;
otherwise the labels without one take away as many leaves of the other fields (`other_touched_iff`), in
`label_without_leaf_hides_statement` the only one. -/

namespace PageInvalidation

/-! ### Changes read from messages -/

theorem Wire.DiffMessage.nodup_keys_toDiff {form : DiffForm} {m : Wire.DiffMessage} {d : Diff}
    (h : m.toDiff form = .ok d) : d.keys.Nodup := by
  obtain ⟨entries, -, rfl⟩ := Wire.DiffMessage.toDiff_eq_ok.mp h
  exact nodup_map_distinctBy Prod.fst entries

theorem Wire.ChangeMessage.nodup_keys_toChange {m : Wire.ChangeMessage} {c : EntityChange}
    (h : m.toChange = .ok c) : c.diff.keys.Nodup := by
  obtain ⟨entity, time, d, -, -, hd, rfl⟩ := Wire.ChangeMessage.toChange_eq_ok.mp h
  exact Wire.DiffMessage.nodup_keys_toDiff hd

namespace ChangedAspects

/-- **When other is touched** by a change with a leaf in another field than the labels and, for an item, the
site links: the labels and the other fields must hold more leaves than there are labels. They do if every
label has a leaf. -/
theorem other_touched_iff {site : Text.CodeText} {c : EntityChange} {keys : List AspectKey}
    (hd : c.diff.keys.Nodup) (h : ofChange site c = .ok keys)
    (hleaf : ∃ e ∈ c.diff.entries, ¬c.diff.IsApart e.1 ∧ e.2.HasLeaf) :
    ∃ labels, c.diff.field .labels = .ok labels ∧
      (.bare .other ∈ keys ↔ labels.entries.length < labels.count + c.diff.otherLeaves) ∧
      ((∀ e ∈ labels.entries, e.2.HasLeaf) → .bare .other ∈ keys) := by
  have hpos : 0 < c.diff.otherLeaves := Diff.otherLeaves_pos_iff.mpr hleaf
  exact other_mem_of_otherLeaves_pos hd h hpos

/-- A change of a property with given entries of its labels, and one statement. -/
def withStatement (labels : List (DiffKey × DiffOp)) : EntityChange where
  isItem := false
  entity := ⟨"P1", by decide⟩
  diff := ⟨.entity, [(.name "labels", .nested .plain labels true),
    (.name "claims", .nested .plain [(.name "P2", .add (.str "x"))] true)], true⟩
  action := .update
  revision := 0
  time := none
  metadata := []
  of_entity := nofun

theorem nodup_keys_withStatement (labels : List (DiffKey × DiffOp)) :
    (withStatement labels).diff.keys.Nodup := by
  simp [withStatement, Diff.keys]

theorem exists_other_withStatement (labels : List (DiffKey × DiffOp)) :
    ∃ e ∈ (withStatement labels).diff.entries,
      ¬(withStatement labels).diff.IsApart e.1 ∧ e.2.HasLeaf := by
  refine ⟨_, List.mem_cons_of_mem _ List.mem_cons_self, ?_, .nested List.mem_cons_self (.leaf rfl)⟩
  rintro (hk | ⟨hitem, -⟩)
  · exact absurd (DiffKey.name.inj hk) (by decide)
  · cases hitem

/-- Two leaves in one label make up for a label that holds none. -/
theorem other_touched_iff_uneven :
    let c := withStatement [(.name "en", .nested .plain [] true), (.name "fr",
      .nested .plain [(.name "old", .remove (.str "y")), (.name "new", .add (.str "z"))] true)]
    c.diff.keys.Nodup ∧ (∃ e ∈ c.diff.entries, ¬c.diff.IsApart e.1 ∧ e.2.HasLeaf) ∧
      ∃ keys, ofChange "enwiki" c = .ok keys ∧ .bare .other ∈ keys := by
  intro c
  have hd := nodup_keys_withStatement
  have hleaf := exists_other_withStatement
  have h : ofChange "enwiki" c = .ok _ := rfl
  refine ⟨hd _, hleaf _, _, h, ?_⟩
  obtain ⟨labels, hlabels, hiff, -⟩ := other_touched_iff (hd _) h (hleaf _)
  cases hlabels
  exact hiff.mpr (by decide)

/-- **A label without a leaf hides a leaf of another field**, in a change that a message carries. -/
theorem label_without_leaf_hides_statement :
    let c := withStatement [(.name "en", .nested .plain [] true)]
    (∃ m : Wire.ChangeMessage, m.toChange = .ok c) ∧
      (∃ e ∈ c.diff.entries, ¬c.diff.IsApart e.1 ∧ e.2.HasLeaf) ∧
      ∃ keys, ofChange "enwiki" c = .ok keys ∧ .bare .other ∉ keys := by
  refine ⟨⟨⟨1, "P1", .update, 0, none, ⟨true, [("labels", .diff true [("en", .diff true [])]),
    ("claims", .diff true [("P2", .add (.str "x"))])]⟩, []⟩, rfl⟩, exists_other_withStatement _, ?_⟩
  exact ⟨_, rfl, by decide⟩

end ChangedAspects

end PageInvalidation
