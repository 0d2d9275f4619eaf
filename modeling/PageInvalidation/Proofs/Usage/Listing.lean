import PageInvalidation.Proofs.Usage.Edits
import PageInvalidation.Proofs.Usage.Filter

/-! # Which pages a lookup lists

A page matches a lookup if it has a usage of one of the entities and one whose key is asked for, up to modifiers. On
pages that have no negative number a lookup lists just those that match, by ascending number and each with all its
usages of the entities (`UsageStore.lists_matching_pages`). A page with a negative number can be recorded, but there
is no record for it: a lookup that it matches gives none at all (`UsageStore.lookups_after_edits`). Both follow from
the pages that are looked through, `UsageStore.listedPages`, the first of which has the least number. -/

namespace PageInvalidation

/-- A key that is asked for finds a recorded one: they are the same, or one is modified and the other the bare key of
its aspect. -/
def AspectKey.Finds (asked k : AspectKey) : Prop :=
  k = asked ∨ asked.isModified = true ∧ k = asked.stripped ∨ k.isModified = true ∧ asked = k.stripped

instance (asked k : AspectKey) : Decidable (asked.Finds k) := inferInstanceAs (Decidable (_ ∨ _ ∨ _))

theorem AspectKey.finds_iff {asked k : AspectKey} : asked.Finds k ↔ k.Covers asked ∨ asked.Covers k := by
  constructor
  · rintro (h | ⟨-, h⟩ | ⟨-, h⟩)
    · exact .inl (.inl h)
    · exact .inl (.inr h)
    · exact .inr (.inr h)
  · rintro ((h | h) | (h | h))
    · exact .inl h
    · cases hasked : asked.isModified with
      | true => exact .inr (.inl ⟨hasked, h⟩)
      | false => exact .inl (h.trans (eq_bare_of_not_isModified hasked).symm)
    · exact .inl h.symm
    · cases hk : k.isModified with
      | true => exact .inr (.inr ⟨hk, h⟩)
      | false => exact .inl ((eq_bare_of_not_isModified hk).trans h.symm)

namespace UsageStore

variable {s : UsageStore} {entities : List EntityId} {keys : List AspectKey} {n : ℤ} {page : Page}

/-- A page matches a lookup: it has a usage of one of the entities, and one that is found by a key asked for, if there
are any. -/
def Matches (s : UsageStore) (entities : List EntityId) (keys : List AspectKey) (n : ℤ) : Prop :=
  (∃ u ∈ (s.usages n).toList, u.entity ∈ entities) ∧
    (keys = [] ∨ ∃ u ∈ (s.usages n).toList, u.entity ∈ entities ∧ ∃ asked ∈ keys, asked.Finds u.key)

instance (s : UsageStore) (entities : List EntityId) (keys : List AspectKey) (n : ℤ) :
    Decidable (s.Matches entities keys n) :=
  inferInstanceAs (Decidable (_ ∧ _))

/-- The pages that a lookup lists, by ascending number. -/
def listedPages (s : UsageStore) (entities : List EntityId) (keys : List AspectKey) : List Page :=
  s.sortedPages.filter fun page => listed keys (wanted entities page)

/-! ### The pages listed -/

theorem listed_wanted_iff_matches :
    listed keys (wanted entities (n, s.usages n)) = true ↔ s.Matches entities keys n := by
  simp only [listed_wanted_iff, UsageFilter.admits_ofKeys, Matches, AspectKey.finds_iff]
  constructor
  · rintro ⟨u, hu, he, hkeys⟩
    exact ⟨⟨u, hu, he⟩, hkeys.imp id fun hfound => ⟨u, hu, he, hfound⟩⟩
  · rintro ⟨⟨u, hu, he⟩, hkeys | ⟨v, hv, he', hfound⟩⟩
    · exact ⟨u, hu, he, .inl hkeys⟩
    · exact ⟨v, hv, he', .inr hfound⟩

theorem mem_listedPages :
    page ∈ s.listedPages entities keys ↔ page.2 = s.usages page.1 ∧ s.Matches entities keys page.1 := by
  rw [listedPages, List.mem_filter, sortedPages, List.mem_mergeSort, ← listed_wanted_iff_matches]
  constructor
  · rintro ⟨hmem, hlisted⟩
    rw [usages_of_mem hmem]
    exact ⟨rfl, hlisted⟩
  · rintro ⟨husages, hlisted⟩
    rw [← husages] at hlisted
    obtain ⟨u, hu⟩ := mem_of_listed hlisted
    have hmem := mem_pages_of_mem_usages (husages ▸ (mem_wanted.mp hu).1)
    rw [← husages] at hmem
    exact ⟨hmem, hlisted⟩

theorem pairwise_listedPages (s : UsageStore) (entities : List EntityId) (keys : List AspectKey) :
    (s.listedPages entities keys).Pairwise fun page page' => page.1 < page'.1 :=
  s.pairwise_sortedPages.sublist List.filter_sublist

theorem mem_listedPages_of_matches (h : s.Matches entities keys n) : (n, s.usages n) ∈ s.listedPages entities keys :=
  mem_listedPages.mpr ⟨rfl, h⟩

theorem least_of_listedPages {rest : List Page} (h : s.listedPages entities keys = page :: rest) :
    s.Matches entities keys page.1 ∧ ∀ k, s.Matches entities keys k → page.1 ≤ k := by
  have hmem : page ∈ s.listedPages entities keys := h ▸ List.mem_cons_self
  have hsorted := s.pairwise_listedPages entities keys
  refine ⟨(mem_listedPages.mp hmem).2, fun k hk => ?_⟩
  have hlisted := mem_listedPages_of_matches hk
  rw [h] at hlisted hsorted
  rcases List.mem_cons.mp hlisted with heq | hrest
  · exact (congrArg Prod.fst heq).ge
  · exact ((List.pairwise_cons.mp hsorted).1 _ hrest).le

theorem pagesUsingValues_text (s : UsageStore) (entities : List EntityId) (keys : List AspectKey) :
    s.pagesUsingValues entities (keys.map fun k => .str k.text) = s.pagesUsing entities keys := by
  have hread : (keys.map fun k => Json.str k.text).mapM AspectKey.ofValue = .ok keys :=
    Outcome.mapM_map_eq_ok fun k _ => AspectKey.ofText_text k
  rw [pagesUsingValues, hread]
  rfl

/-! ### Lookups -/

theorem record_of_neg (entities : List EntityId) (h : page.1 < 0) :
    record entities page = .error (.badPageId (.int page.1)) := by
  rw [record, PageUsages.pageIdOfInt, if_neg (not_le.mpr h)]
  rfl

theorem toList_ofList_wanted (n : ℕ) (entities : List EntityId) (page : Page) :
    (PageUsages.ofList n (wanted entities page)).toList = wanted entities page :=
  Keyed.toList_ofList_of_nodup (page.2.nodup.sublist (List.filter_sublist.map _))

theorem exists_pagesUsing_of_matches (h : ∀ m, s.Matches entities keys m → 0 ≤ m) :
    ∃ ps, s.pagesUsing entities keys = .ok ps :=
  exists_pagesUsing_of_listed fun m hl => h m (listed_wanted_iff_matches.mp hl)

/-- **A lookup fails exactly if a page with a negative number matches it**, for the least such page and before any
page is listed. -/
theorem pagesUsing_eq_error_iff {err : Usage.Error} : s.pagesUsing entities keys = .error err ↔
    ∃ m < 0, s.Matches entities keys m ∧ (∀ k, s.Matches entities keys k → m ≤ k) ∧ err = .badPageId (.int m) := by
  have hrun : s.pagesUsing entities keys = (s.listedPages entities keys).mapM (record entities) := rfl
  cases hpages : s.listedPages entities keys with
  | nil =>
    rw [hrun, hpages]
    refine ⟨nofun, ?_⟩
    rintro ⟨m, -, hm, -⟩
    simpa [hpages] using mem_listedPages_of_matches hm
  | cons page rest =>
    obtain ⟨hfirst, hleast⟩ := least_of_listedPages hpages
    by_cases hneg : page.1 < 0
    · rw [hrun, hpages, List.mapM_cons, record_of_neg entities hneg]
      constructor
      · intro h
        exact ⟨page.1, hneg, hfirst, hleast, (Except.error.inj h).symm⟩
      · rintro ⟨m, -, hm, hmin, rfl⟩
        rw [le_antisymm (hmin _ hfirst) (hleast m hm)]
        rfl
    · have hpos : 0 ≤ page.1 := not_lt.mp hneg
      obtain ⟨ps, hps⟩ := exists_pagesUsing_of_matches fun m hm => hpos.trans (hleast m hm)
      rw [hps]
      refine ⟨nofun, ?_⟩
      rintro ⟨m, hm, hmatch, -⟩
      exact absurd (hpos.trans (hleast m hmatch)) (not_le.mpr hm)

/-- **A lookup succeeds exactly if no page with a negative number matches it.** -/
theorem exists_pagesUsing_iff :
    (∃ ps, s.pagesUsing entities keys = .ok ps) ↔ ∀ m < 0, ¬s.Matches entities keys m := by
  constructor
  · rintro ⟨ps, hps⟩ m hm hmatch
    obtain ⟨p, hp⟩ := Outcome.exists_of_mapM_eq_ok hps (mem_listedPages_of_matches hmatch)
    rw [record_of_neg entities hm] at hp
    cases hp
  · intro h
    refine exists_pagesUsing_of_matches fun m hm => ?_
    by_contra hneg
    exact h m (not_le.mp hneg) hm

/-- **A lookup lists exactly the pages that match it**, if no page has a negative number: by ascending number, each
with all its usages of the entities and no others. -/
theorem lists_matching_pages (h : ∀ page ∈ s.pages.toList, 0 ≤ page.1) (entities : List EntityId)
    (keys : List AspectKey) :
    ∃ ps, s.pagesUsingValues entities (keys.map fun k => .str k.text) = .ok ps ∧
      (ps.map PageUsages.pageId).Pairwise (· < ·) ∧
      (∀ n : ℤ, (∃ p ∈ ps, p.pageId = n) ↔ s.Matches entities keys n) ∧
      ∀ p ∈ ps, p.toList = (s.usages p.pageId).toList.filter fun u => u.entity ∈ entities := by
  obtain ⟨ps, hps⟩ : ∃ ps, s.pagesUsing entities keys = .ok ps := exists_pagesUsing h
  refine ⟨ps, (s.pagesUsingValues_text entities keys).trans hps, pairwise_pageId_pagesUsing hps, fun n => ?_, ?_⟩
  · have hlisted : ∀ n : ℕ, (∃ p ∈ ps, p.pageId = n) ↔ s.Matches entities keys n := fun n => by
      rw [← List.mem_map, mem_pageId_pagesUsing hps, listed_wanted_iff_matches]
    constructor
    · rintro ⟨p, hp, rfl⟩
      exact (hlisted p.pageId).mp ⟨p, hp, rfl⟩
    · intro hmatch
      obtain ⟨u, hu, -⟩ := hmatch.1
      obtain ⟨n, rfl⟩ := Int.eq_ofNat_of_zero_le (h _ (mem_pages_of_mem_usages hu))
      obtain ⟨p, hp, hid⟩ := (hlisted n).mpr hmatch
      exact ⟨p, hp, congrArg Int.ofNat hid⟩
  · intro p hp
    rw [((mem_pagesUsing hps).mp hp).2, toList_ofList_wanted]
    rfl

/-- Of three pages two match, one with a label of any language and one with the label asked for; a title of another
entity comes along. -/
theorem lists_matching_pages_label :
    let q1 : EntityId := ⟨"Q1", by decide⟩
    let q2 : EntityId := ⟨"Q2", by decide⟩
    let english : AspectKey := ⟨.label, some "en", by rintro _ ⟨⟩; decide⟩
    let s := ((empty.add 3 [⟨q1, .bare .label⟩, ⟨q2, .bare .title⟩]).add 2 [⟨q2, .bare .title⟩]).add 1 [⟨q1, english⟩]
    (∀ page ∈ s.pages.toList, 0 ≤ page.1) ∧
      ∃ ps, s.pagesUsingValues [q1, q2] [.str "L.en"] = .ok ps ∧ (∃ p ∈ ps, (p.pageId : ℤ) = 1) ∧
        (¬∃ p ∈ ps, (p.pageId : ℤ) = 2) ∧
        ∃ p ∈ ps, (p.pageId : ℤ) = 3 ∧ p.toList = [⟨q1, .bare .label⟩, ⟨q2, .bare .title⟩] := by
  intro q1 q2 english s
  have hpages : ∀ page ∈ s.pages.toList, 0 ≤ page.1 := by decide
  obtain ⟨ps, hps, -, hlisted, hrecords⟩ := lists_matching_pages hpages [q1, q2] [english]
  obtain ⟨p, hp, hid⟩ := (hlisted 3).mpr (by decide)
  refine ⟨hpages, ps, hps, (hlisted 1).mpr (by decide), fun h => absurd ((hlisted 2).mp h) (by decide), p, hp, hid, ?_⟩
  rw [hrecords p hp, hid]
  decide

/-! ### After edits -/

theorem usages_after_of_ne {es : List Edit} (h : ∀ e ∈ es, e.page ≠ n) : (after es).usages n = Keyed.empty := by
  induction es using List.reverseRecOn with
  | nil => rfl
  | append_singleton es e ih =>
    rw [after_concat, usages_run_of_ne _ (h e (by simp))]
    exact ih fun e he => h e (List.mem_append_left _ he)

theorem exists_edit_of_matches {es : List Edit} (h : (after es).Matches entities keys n) : ∃ e ∈ es, e.page = n := by
  by_contra hnone
  obtain ⟨u, hu, -⟩ := h.1
  rw [usages_after_of_ne fun e he heq => hnone ⟨e, he, heq⟩] at hu
  cases hu

/-- **When a lookup succeeds after edits.** Every edit is accepted, whatever the number of its page, but a lookup
succeeds only if no page with a negative number matches it; it fails for the least one that does. If no edit is for
such a page, every lookup succeeds. -/
theorem lookups_after_edits (es : List Edit) (entities : List EntityId) (keys : List AspectKey) :
    let s := after es
    let result := s.pagesUsingValues entities (keys.map fun k => .str k.text)
    (∀ e : Edit, ∃ us, (e.run s).2 = .ok us) ∧
      ((∃ ps, result = .ok ps) ↔ ∀ m < 0, ¬s.Matches entities keys m) ∧
      (∀ err, result = .error err ↔ ∃ m < 0, s.Matches entities keys m ∧
        (∀ k, s.Matches entities keys k → m ≤ k) ∧ err = .badPageId (.int m)) ∧
      ((∀ e ∈ es, 0 ≤ e.page) → ∃ ps, result = .ok ps) := by
  intro s result
  have hresult : result = s.pagesUsing entities keys := s.pagesUsingValues_text entities keys
  rw [hresult]
  refine ⟨fun e => ⟨_, result_run s e⟩, exists_pagesUsing_iff, fun err => pagesUsing_eq_error_iff, fun hes => ?_⟩
  refine exists_pagesUsing_iff.mpr fun m hm hmatch => ?_
  obtain ⟨e, he, rfl⟩ := exists_edit_of_matches hmatch
  exact absurd (hes e he) (not_le.mpr hm)

/-- A page with a negative number is recorded like any other, and keeps a lookup from listing another page. -/
theorem negative_page_stops_lookup :
    let q : EntityId := ⟨"Q1", by decide⟩
    let s := after [.add 1 [⟨q, .bare .label⟩], .add (-1) [⟨q, .bare .title⟩]]
    (s.usages (-1)).toList = [⟨q, .bare .title⟩] ∧ s.Matches [q] [] 1 ∧
      s.pagesUsingValues [q] [] = .error (.badPageId (.int (-1))) := by
  intro q s
  refine ⟨by decide, by decide, (s.pagesUsingValues_text [q] []).trans ?_⟩
  refine pagesUsing_eq_error_iff.mpr ⟨-1, by decide, by decide, fun k hk => ?_, rfl⟩
  obtain ⟨e, he, rfl⟩ := exists_edit_of_matches hk
  rcases List.mem_pair.mp he with rfl | rfl <;> decide

end UsageStore

end PageInvalidation
