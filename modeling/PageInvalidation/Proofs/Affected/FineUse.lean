import PageInvalidation.Proofs.Affected.Pages

/-! # Pages that use descriptions or statements

Changes of descriptions and of statements are reported as *other*, with the intention that pages which use
them are found all the same. They are not: what is looked up are the keys of *other* and of everything, and a
key of a description or a statement is related to neither. Whether a page is found is decided by its other
keys alone (`Finder.fine_leaf_page_affected_iff`). -/

namespace PageInvalidation

/-- A key of the descriptions or of the statements, of all of them or of one. -/
def AspectKey.IsFine (k : AspectKey) : Prop := k.aspect = .description ∨ k.aspect = .statement

instance (k : AspectKey) : Decidable k.IsFine := inferInstanceAs (Decidable (_ ∨ _))

theorem Diff.otherLeaves_pos_of_field {d sub : Diff} {field : DiffField}
    (hfield : field = .descriptions ∨ field = .claims) (hsub : d.field field = .ok sub)
    (hleaf : ∃ e ∈ sub.entries, e.2.HasLeaf) : 0 < d.otherLeaves := by
  obtain ⟨e, he, hl⟩ := hleaf
  rcases Diff.field_eq_ok.mp hsub with ⟨-, rfl⟩ | hget
  · cases he
  · refine Diff.otherLeaves_pos_iff.mpr ⟨_, Diff.mem_of_get?_eq_some hget, ?_, .nested he hl⟩
    rintro (hk | ⟨-, hk⟩)
    · rcases hfield with rfl | rfl <;> exact absurd (DiffKey.name.inj hk) (by decide)
    · rcases hfield with rfl | rfl <;> exact absurd (DiffKey.name.inj hk) (by decide)

namespace Finder

open ChangedAspects (Touchable)

variable {σ : Type} [Journalled σ] {store : UsageStore} {titles : TitleIndex} {f : Finder}
  {c : EntityChange} {touched used : List AspectKey} {ps : List PageUsages}

/-- **Keys of descriptions and statements report nothing**: some key is reported if and only if a key of
another aspect stands for everything or for a touched one. -/
theorem exists_reported_iff (ht : ∀ k ∈ touched, Touchable k) (hne : touched ≠ []) :
    (∃ k, Reported touched used k) ↔
      ∃ u ∈ used, ¬u.IsFine ∧ (u = .bare .all ∨ ∃ t ∈ touched, u.Covers t) := by
  constructor
  · rintro ⟨k, hk, hall | ⟨u, hu, hcov⟩⟩
    · exact ⟨_, hall, by decide, .inl rfl⟩
    · refine ⟨u, hu, ?_, .inr ⟨k, hk, hcov⟩⟩
      rw [AspectKey.IsFine, hcov.aspect_eq, not_or]
      exact (ht k hk).aspect_ne
  · rintro ⟨u, hu, -, rfl | ⟨t, hmem, hcov⟩⟩
    · obtain ⟨t, hmem⟩ := List.exists_mem_of_ne_nil _ hne
      exact ⟨t, hmem, .inl hu⟩
    · exact ⟨t, hmem, .inr ⟨u, hu, hcov⟩⟩

/-- A page that is found is affected if and only if it is linked or one of its keys, of another aspect than
descriptions and statements, stands for everything or for a touched key. -/
theorem mem_pageId_iff_not_fine (h : f.affectedIn store titles c = .ok ps) :
    ∃ touched, f.changedAspects c = .ok touched ∧ ∀ n : ℕ, f.Found titles n →
      (n ∈ ps.map PageUsages.pageId ↔ f.Linked titles c touched n ∨
        ∃ u ∈ (store.usages n).keysOf c.entity, ¬u.IsFine ∧
          (u = .bare .all ∨ ∃ t ∈ touched, u.Covers t)) := by
  obtain ⟨touched, htouched, hproper, hholds⟩ := affectedIn_eq_ok h
  refine ⟨touched, htouched, fun n hfound => ?_⟩
  have ht : ∀ k ∈ touched, Touchable k := fun k => ChangedAspects.touchable_of_mem htouched
  rw [mem_pageId_iff_affects hproper hholds, and_iff_left hfound,
    ← exists_reported_iff ht (ChangedAspects.ofDiff_ne_nil htouched), or_comm]
  constructor
  · rintro ⟨k, hk | ⟨-, hl⟩⟩
    · exact .inl ⟨k, hk⟩
    · exact .inr hl
  · rintro (⟨k, hk⟩ | hl)
    · exact ⟨k, .inl hk⟩
    · exact ⟨_, .inr ⟨rfl, hl⟩⟩

/-- **When a page is affected by a change of descriptions or statements.** The change touches other, if every
label that it changes has a leaf; but a page that is found is affected if and only if it is linked or one of
its keys, of another aspect than descriptions and statements, stands for everything or for a touched key. -/
theorem fine_leaf_page_affected_iff {s : σ} {field : DiffField} {sub : Diff}
    (h : ((f.affected (Sources.ofMemory store titles) (.entity c)).run.run s).1 = .ok ps)
    (hd : c.diff.keys.Nodup) (hfield : field = .descriptions ∨ field = .claims)
    (hsub : c.diff.field field = .ok sub) (hleaf : ∃ e ∈ sub.entries, e.2.HasLeaf) :
    ∃ touched labels, f.changedAspects c = .ok touched ∧ c.diff.field .labels = .ok labels ∧
      ((∀ e ∈ labels.entries, e.2.HasLeaf) → .bare .other ∈ touched) ∧
      ∀ n : ℕ, f.Found titles n → (n ∈ ps.map PageUsages.pageId ↔ f.Linked titles c touched n ∨
        ∃ u ∈ (store.usages n).keysOf c.entity, ¬u.IsFine ∧
          (u = .bare .all ∨ ∃ t ∈ touched, u.Covers t)) := by
  obtain ⟨touched, htouched, hiff⟩ := mem_pageId_iff_not_fine ((affectedBy_gives s).symm.trans h)
  have hpos : 0 < c.diff.otherLeaves := Diff.otherLeaves_pos_of_field hfield hsub hleaf
  obtain ⟨labels, hlabels, -, hother⟩ := ChangedAspects.other_mem_of_otherLeaves_pos hd htouched hpos
  exact ⟨touched, labels, htouched, hlabels, hother, hiff⟩

theorem exists_leaf_itemChange (field : DiffField) (name : Text.CodeText) :
    ∃ sub, (itemChange field [(.name name, .add (.str "x"))]).diff.field field = .ok sub ∧
      ∃ e ∈ sub.entries, e.1 = .name name ∧ e.2.HasLeaf := by
  refine ⟨⟨.plain, [(.name name, .add (.str "x"))], true⟩, ?_, _, List.mem_cons_self, rfl, .leaf rfl⟩
  exact Diff.field_eq_ok.mpr (.inr (by simp [itemChange, Diff.get?, Diff.toOp]))

/-- A page that uses other beside a description. -/
theorem fine_leaf_page_affected_iff_other :
    let c := itemChange .descriptions [(.name "en", .add (.str "x"))]
    let f : Finder := ⟨"enwiki", "en", true⟩
    let store := UsageStore.empty.add 1 [⟨c.entity, .bare .description⟩, ⟨c.entity, .bare .other⟩]
    let titles := TitleIndex.empty.insert ⟨1, 0, "User", true⟩
    c.diff.keys.Nodup ∧
      (∃ sub, c.diff.field .descriptions = .ok sub ∧ ∃ e ∈ sub.entries, e.2.HasLeaf) ∧
      ∃ ps, ((f.affected (Sources.ofMemory store titles) (.entity c)).run.run ([] : List Note)).1 =
        .ok ps ∧ 1 ∈ ps.map PageUsages.pageId := by
  intro c f store titles
  have hd : c.diff.keys.Nodup := by decide
  obtain ⟨sub, hsub, e, he, -, hl⟩ := exists_leaf_itemChange .descriptions "en"
  have htouched : f.changedAspects c = .ok [.bare .other] := rfl
  have hpages : ∀ page ∈ store.pages.toList, 0 ≤ page.1 := by decide
  have htells : f.Tells store titles c [.bare .other] := tells_of_isShort (by decide) (by decide)
  obtain ⟨ps, hps⟩ := exists_affected ([] : List Note) hpages htouched (fun _ h => absurd h (by decide)) htells
  refine ⟨hd, ⟨sub, hsub, e, he, hl⟩, ps, hps, ?_⟩
  obtain ⟨touched, labels, htouched', -, -, hiff⟩ :=
    fine_leaf_page_affected_iff hps hd (.inl rfl) hsub ⟨e, he, hl⟩
  cases htouched.symm.trans htouched'
  refine (hiff 1 ⟨_, rfl, fun _ => rfl⟩).mpr (.inr ⟨.bare .other, by decide, by decide, .inr ?_⟩)
  exact ⟨_, List.mem_cons_self, .inl rfl⟩

/-- **A change of the one description that a page uses misses the page.** -/
theorem description_use_missed :
    let c := itemChange .descriptions [(.name "en", .add (.str "x"))]
    let f : Finder := ⟨"enwiki", "en", true⟩
    let store := UsageStore.empty.add 1
      [⟨c.entity, ⟨.description, some "en", by rintro _ ⟨⟩; decide⟩⟩]
    let titles := TitleIndex.empty.insert ⟨1, 0, "User", true⟩
    (∃ sub, c.diff.field .descriptions = .ok sub ∧ ∃ e ∈ sub.entries, e.1 = .name "en" ∧ e.2.HasLeaf) ∧
      f.Found titles 1 ∧
      ∃ ps, ((f.affected (Sources.ofMemory store titles) (.entity c)).run.run ([] : List Note)).1 =
        .ok ps ∧ 1 ∉ ps.map PageUsages.pageId := by
  intro c f store titles
  have htouched : f.changedAspects c = .ok [.bare .other] := rfl
  have hpages : ∀ page ∈ store.pages.toList, 0 ≤ page.1 := by decide
  have htells : f.Tells store titles c [.bare .other] := tells_of_isShort (by decide) (by decide)
  have hfound : f.Found titles 1 := ⟨_, rfl, fun _ => rfl⟩
  obtain ⟨ps, hps⟩ := exists_affected ([] : List Note) hpages htouched (fun _ h => absurd h (by decide)) htells
  refine ⟨exists_leaf_itemChange _ _, hfound, ps, hps, ?_⟩
  obtain ⟨touched, htouched', hiff⟩ := mem_pageId_iff_not_fine ((affectedBy_gives _).symm.trans hps)
  cases htouched.symm.trans htouched'
  rw [hiff 1 hfound]
  have hkeys : ∀ k ∈ (store.usages (1 : ℕ)).keysOf c.entity, k.IsFine := by decide
  rintro (⟨-, htitle, -⟩ | ⟨k, hk, hnot, -⟩)
  · exact absurd htitle (by decide)
  · exact hnot (hkeys k hk)

end Finder

end PageInvalidation
