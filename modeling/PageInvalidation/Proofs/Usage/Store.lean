import PageInvalidation.Proofs.Outcome
import PageInvalidation.Proofs.Usage.Page
import PageInvalidation.Usage.Store

/-! # What a lookup in the store finds

A successful lookup gives one record for each page listed (`UsageStore.mem_pagesUsing`,
`UsageStore.nodup_pageId_pagesUsing`), and the record of a page holds its usages of the wanted entities. -/

namespace PageInvalidation.UsageStore

open PageUsages (Holds Proper)

variable {s : UsageStore} {n : ℕ} {entities : List EntityId} {keys : List AspectKey}
  {page : Page} {p : PageUsages} {ps : List PageUsages} {e : EntityId} {u : Usage}

/-! ### The usages of a page -/

theorem usages_of_mem (h : page ∈ s.pages.toList) : s.usages page.1 = page.2 := by
  rw [usages, (s.pages.find?_eq_some).mpr ⟨h, rfl⟩]

theorem mem_pages_of_mem_usages {m : Int} (h : u ∈ (s.usages m).toList) :
    (m, s.usages m) ∈ s.pages.toList := by
  rw [usages] at h ⊢
  cases hf : s.pages.find? m with
  | none =>
    rw [hf] at h
    cases h
  | some page =>
    obtain ⟨hmem, rfl⟩ := (s.pages.find?_eq_some).mp hf
    exact hmem

theorem usages_add (s : UsageStore) (m k : Int) (us : List Usage) :
    (s.add m us).usages k = if m = k then (s.usages k).insertAll us else s.usages k := by
  have hfind : (s.add m us).pages.find? k =
      if m = k then some (m, (s.usages m).insertAll us) else s.pages.find? k := s.pages.find?_put _ k
  by_cases h : m = k
  · rw [usages, hfind, if_pos h, if_pos h, h]
  · rw [if_neg h] at hfind ⊢
    rw [usages, hfind, usages]

/-- The store that usages of pages are recorded in one after the other. -/
def ofRecorded (rows : List (Int × Usage)) : UsageStore := rows.foldl (fun s row => s.add row.1 [row.2]) empty

theorem ofRecorded_concat (rows : List (Int × Usage)) (row : Int × Usage) :
    ofRecorded (rows ++ [row]) = (ofRecorded rows).add row.1 [row.2] := List.foldl_concat _ _ _ _

/-- **What was recorded is in the store**, and nothing else, if no entity has a number sign. -/
theorem mem_usages_ofRecorded {rows : List (Int × Usage)}
    (h : ∀ row ∈ rows, .scalar '#' ∉ row.2.entity.serialization) {m : Int} :
    u ∈ ((ofRecorded rows).usages m).toList ↔ (m, u) ∈ rows := by
  induction rows using List.reverseRecOn generalizing u m with
  | nil => exact ⟨nofun, nofun⟩
  | append_singleton rows row ih =>
    have hrows : ∀ row ∈ rows, .scalar '#' ∉ row.2.entity.serialization := fun r hr =>
      h r (List.mem_append_left _ hr)
    have hrow : .scalar '#' ∉ row.2.entity.serialization := h row (by simp)
    rw [ofRecorded_concat, usages_add, List.mem_append, List.mem_singleton]
    split
    · rename_i hm
      have hinj : Set.InjOn Usage.identity {v | v ∈ ((ofRecorded rows).usages m).toList ∨ v ∈ [row.2]} := by
        refine Usage.identity_injOn_of_plain ?_
        rintro v (hv | hv)
        · exact hrows _ ((ih hrows).mp hv)
        · exact List.mem_singleton.mp hv ▸ hrow
      rw [Keyed.mem_insertAll _ hinj, ih hrows, List.mem_singleton]
      refine or_congr Iff.rfl ⟨?_, fun heq => heq ▸ rfl⟩
      rintro rfl
      rw [← hm]
    · rename_i hm
      rw [ih hrows, or_iff_left]
      rintro rfl
      exact hm rfl

theorem uses_iff : s.uses e = true ↔ ∃ m, ∃ u ∈ (s.usages m).toList, u.entity = e := by
  simp only [uses, List.any_eq_true, decide_eq_true_eq]
  constructor
  · rintro ⟨page, hpage, u, hu, he⟩
    exact ⟨page.1, u, by rwa [usages_of_mem hpage], he⟩
  · rintro ⟨m, u, hu, he⟩
    exact ⟨_, mem_pages_of_mem_usages hu, u, hu, he⟩

theorem mem_wanted : u ∈ wanted entities page ↔ u ∈ page.2.toList ∧ u.entity ∈ entities := by
  simp [wanted]

theorem mem_wanted_singleton : u ∈ wanted [e] page ↔ u ∈ page.2.toList ∧ u.entity = e := by
  rw [mem_wanted, List.mem_singleton]

theorem listed_iff {us : List Usage} (hkeys : keys ≠ []) :
    listed keys us = true ↔ ∃ u ∈ us, (UsageFilter.ofKeys keys).admits u.key = true := by
  rw [listed, List.isEmpty_eq_false_iff.mpr hkeys, Bool.false_or, Bool.and_eq_true, List.any_eq_true]
  refine ⟨And.right, fun h => ⟨?_, h⟩⟩
  obtain ⟨u, hu, -⟩ := h
  rw [List.isEmpty_eq_false_iff.mpr (List.ne_nil_of_mem hu), Bool.not_false]

/-- A page is listed if it has a wanted usage with a key that the filter admits, or any if there is no filter. -/
theorem listed_wanted_iff : listed keys (wanted entities page) = true ↔ ∃ u ∈ page.2.toList, u.entity ∈ entities ∧
    (keys = [] ∨ (UsageFilter.ofKeys keys).admits u.key = true) := by
  have hmem : (∃ u ∈ wanted entities page, keys = [] ∨ (UsageFilter.ofKeys keys).admits u.key = true) ↔
      ∃ u ∈ page.2.toList, u.entity ∈ entities ∧ (keys = [] ∨ (UsageFilter.ofKeys keys).admits u.key = true) := by
    simp only [mem_wanted, and_assoc]
  rw [← hmem]
  by_cases hkeys : keys = []
  · subst hkeys
    simp [listed, List.eq_nil_iff_forall_not_mem]
  · simp only [listed_iff hkeys, hkeys, false_or]

theorem mem_of_listed {us : List Usage} (h : listed keys us = true) : ∃ u, u ∈ us := by
  rw [listed, Bool.and_eq_true, Bool.not_eq_true', List.isEmpty_eq_false_iff] at h
  exact List.exists_mem_of_ne_nil _ h.1

/-! ### The records -/

theorem record_eq_ok : record entities page = .ok p ↔
    page.1 = p.pageId ∧ p = .ofList p.pageId (wanted entities page) := by
  rw [record, Outcome.map_eq_ok]
  constructor
  · rintro ⟨m, hm, rfl⟩
    exact ⟨PageUsages.pageIdOfInt_eq_ok.mp hm, rfl⟩
  · rintro ⟨hid, hp⟩
    exact ⟨_, PageUsages.pageIdOfInt_eq_ok.mpr hid, hp.symm⟩

/-- **The records that a lookup gives**: one for each page listed, with its wanted usages. -/
theorem mem_pagesUsing (h : s.pagesUsing entities keys = .ok ps) : p ∈ ps ↔
    listed keys (wanted entities (p.pageId, s.usages p.pageId)) = true ∧
      p = .ofList p.pageId (wanted entities (p.pageId, s.usages p.pageId)) := by
  rw [Outcome.mem_of_mapM_eq_ok h]
  simp only [List.mem_filter, sortedPages, List.mem_mergeSort, record_eq_ok]
  constructor
  · rintro ⟨⟨m, us⟩, ⟨hmem, hl⟩, hid, hp⟩
    cases hid
    have hus : s.usages p.pageId = us := usages_of_mem hmem
    rw [hus]
    exact ⟨hl, hp⟩
  · rintro ⟨hl, hp⟩
    obtain ⟨u, hu⟩ := mem_of_listed hl
    exact ⟨_, ⟨mem_pages_of_mem_usages (mem_wanted.mp hu).1, hl⟩, rfl, hp⟩

theorem mem_pageId_pagesUsing (h : s.pagesUsing entities keys = .ok ps) :
    n ∈ ps.map PageUsages.pageId ↔ listed keys (wanted entities (n, s.usages n)) = true := by
  rw [List.mem_map]
  constructor
  · rintro ⟨p, hp, rfl⟩
    exact ((mem_pagesUsing h).mp hp).1
  · intro hl
    exact ⟨.ofList n (wanted entities (n, s.usages n)), (mem_pagesUsing h).mpr ⟨hl, rfl⟩, rfl⟩

theorem exists_pagesUsing_of_listed (h : ∀ m, listed keys (wanted entities (m, s.usages m)) = true → 0 ≤ m) :
    ∃ ps, s.pagesUsing entities keys = .ok ps := by
  refine Outcome.exists_mapM_eq_ok fun page hpage => ?_
  obtain ⟨hmem, hl⟩ := List.mem_filter.mp hpage
  have hpos : 0 ≤ page.1 := by
    refine h page.1 ?_
    rwa [usages_of_mem (List.mem_mergeSort.mp hmem)]
  exact ⟨.ofList page.1.toNat _, record_eq_ok.mpr ⟨(Int.toNat_of_nonneg hpos).symm, rfl⟩⟩

theorem exists_pagesUsing_of_used (h : ∀ m, ∀ u ∈ (s.usages m).toList, 0 ≤ m) :
    ∃ ps, s.pagesUsing entities keys = .ok ps := by
  refine exists_pagesUsing_of_listed fun m hl => ?_
  obtain ⟨u, hu⟩ := mem_of_listed hl
  exact h m u (mem_wanted.mp hu).1

theorem exists_pagesUsing (h : ∀ page ∈ s.pages.toList, 0 ≤ page.1) :
    ∃ ps, s.pagesUsing entities keys = .ok ps :=
  exists_pagesUsing_of_used fun _ _ hu => h _ (mem_pages_of_mem_usages hu)

theorem map_pageId_pagesUsing (h : s.pagesUsing entities keys = .ok ps) : ps.map (fun p => (p.pageId : Int)) =
    (s.sortedPages.filter fun page => listed keys (wanted entities page)).map Prod.fst := by
  have hids : ∀ {pages : List Page} {ps : List PageUsages},
      List.Forall₂ (fun page p => record entities page = .ok p) pages ps →
        ps.map (fun p => (p.pageId : Int)) = pages.map Prod.fst := by
    intro pages ps hf
    induction hf with
    | nil => rfl
    | cons hr _ ih => rw [List.map_cons, List.map_cons, ih, (record_eq_ok.mp hr).1]
  exact hids (Outcome.mapM_eq_ok.mp h)

theorem pairwise_sortedPages (s : UsageStore) : s.sortedPages.Pairwise fun page page' => page.1 < page'.1 := by
  have hsorted : s.sortedPages.Pairwise fun page page' => page.1 ≤ page'.1 := pairwise_mergeSort_le Prod.fst _
  have hdistinct : (s.sortedPages.map Prod.fst).Nodup :=
    ((List.mergeSort_perm s.pages.toList _).map Prod.fst).nodup_iff.mpr s.pages.nodup
  refine (hsorted.and (List.pairwise_map.mp hdistinct)).imp ?_
  rintro page page' ⟨hle, hne⟩
  exact lt_of_le_of_ne hle hne

theorem pairwise_pageId_pagesUsing (h : s.pagesUsing entities keys = .ok ps) :
    (ps.map PageUsages.pageId).Pairwise (· < ·) := by
  have hids : (ps.map fun p => (p.pageId : Int)).Pairwise (· < ·) := by
    rw [map_pageId_pagesUsing h]
    exact List.pairwise_map.mpr (s.pairwise_sortedPages.sublist List.filter_sublist)
  refine List.pairwise_map.mpr ((List.pairwise_map.mp hids).imp ?_)
  exact fun hlt => Int.ofNat_lt.mp hlt

theorem nodup_pageId_pagesUsing (h : s.pagesUsing entities keys = .ok ps) :
    (ps.map PageUsages.pageId).Nodup :=
  (pairwise_pageId_pagesUsing h).imp ne_of_lt

/-- **What the records of a lookup hold**: the wanted usages of the pages listed. -/
theorem holds_pagesUsing (h : s.pagesUsing entities keys = .ok ps) : Holds ps n u ↔
    (u ∈ (s.usages n).toList ∧ u.entity ∈ entities) ∧ ∃ v ∈ (s.usages n).toList, v.entity ∈ entities ∧
      (keys = [] ∨ (UsageFilter.ofKeys keys).admits v.key = true) := by
  have hwanted : u ∈ (PageUsages.ofList n (wanted entities (n, s.usages n))).toList ↔
      u ∈ (s.usages n).toList ∧ u.entity ∈ entities := by
    have hinj : Set.InjOn Usage.identity {v | v ∈ wanted entities ((n : Int), s.usages n)} :=
      (s.usages n).injOn.mono fun v hv => (mem_wanted.mp hv).1
    rw [PageUsages.mem_ofList hinj, mem_wanted]
  have hlisted : listed keys (wanted entities (n, s.usages n)) = true ↔ ∃ v ∈ (s.usages n).toList,
      v.entity ∈ entities ∧ (keys = [] ∨ (UsageFilter.ofKeys keys).admits v.key = true) := listed_wanted_iff
  rw [← hwanted, ← hlisted]
  constructor
  · rintro ⟨p, hp, rfl, hu⟩
    obtain ⟨hl, hrecord⟩ := (mem_pagesUsing h).mp hp
    exact ⟨hrecord ▸ hu, hl⟩
  · rintro ⟨hu, hl⟩
    exact ⟨_, (mem_pagesUsing h).mpr ⟨hl, rfl⟩, rfl, hu⟩

theorem proper_pagesUsing (h : s.pagesUsing entities keys = .ok ps) : Proper ps := by
  refine ⟨nodup_pageId_pagesUsing h, fun p hp => ?_⟩
  obtain ⟨hl, -⟩ := (mem_pagesUsing h).mp hp
  obtain ⟨v, hv⟩ := mem_of_listed hl
  have hholds : Holds ps p.pageId v := (holds_pagesUsing h).mpr ⟨mem_wanted.mp hv, listed_wanted_iff.mp hl⟩
  have hmem : v ∈ p.toList := (PageUsages.mem_toList_iff_holds (nodup_pageId_pagesUsing h) hp).mpr hholds
  exact List.ne_nil_of_mem hmem

end PageInvalidation.UsageStore
