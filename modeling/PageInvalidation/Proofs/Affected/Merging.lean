import PageInvalidation.Affected.Pages
import PageInvalidation.Proofs.Usage.Page

/-! # What merging holds

Merging gives a page the usages of all its records, added one record after the other (`Finder.known_foldl_merge`), and
keeps the pages in the order in which they were first seen (`Finder.keys_foldl_merge`). So it is a union: each page has
the identities of all its records (`Finder.mem_keys_of_mem_mergeAll`), and records that are merged in another order or
more often make equal ones (`Finder.rel_same_mergeAll`). Where the usages of a page are told apart by their identities,
as those of one entity are, merging holds just the usages of the records (`Finder.holds_mergeAll`). -/

namespace PageInvalidation.Finder

open PageUsages

variable {records : LinkedTitles.Records} {p q : PageUsages} {ps : List PageUsages}
  {lists lists' : List (List PageUsages)} {S : ℕ → Set Usage} {n : ℕ} {u : Usage} {i : Text.CodeText}

/-! ### The record of a page -/

/-- The record that is there for a page, or one without usages. -/
def known (records : LinkedTitles.Records) (n : ℕ) : PageUsages := (records.find? n).getD (.empty n)

theorem mem_known : u ∈ (known records n).toList ↔ Holds records.toList n u := by
  unfold known
  cases h : records.find? n with
  | none =>
    have hn : n ∉ records.keys := records.find?_eq_none.mp h
    refine ⟨nofun, ?_⟩
    rintro ⟨q, hq, hid, -⟩
    exact absurd (records.mem_keys.mpr ⟨q, hq, hid⟩) hn
  | some q =>
    obtain ⟨hq, rfl⟩ := records.find?_eq_some.mp h
    exact mem_toList_iff_holds records.nodup hq

@[simp] theorem pageId_known : (known records n).pageId = n := by
  unfold known
  cases h : records.find? n with
  | none => rfl
  | some q => exact (records.find?_eq_some.mp h).2

theorem known_eq_of_mem (h : q ∈ records.toList) : known records q.pageId = q := by
  rw [known, records.find?_eq_some.mpr ⟨h, rfl⟩, Option.getD_some]

theorem known_eq_of_notMem (h : n ∉ records.keys) : known records n = .empty n := by
  rw [known, records.find?_eq_none.mpr h, Option.getD_none]

/-! ### One record more -/

theorem merge_eq : merge records p = records.put ((known records p.pageId).addAll p.toList) := rfl

theorem keys_merge : (merge records p).keys =
    if p.pageId ∈ records.keys then records.keys else records.keys ++ [p.pageId] := by
  rw [merge_eq, Keyed.keys_put, pageId_addAll, pageId_known]

theorem mem_keys_merge : n ∈ (merge records p).keys ↔ n = p.pageId ∨ n ∈ records.keys := by
  rw [merge_eq, Keyed.mem_keys_put, pageId_addAll, pageId_known]

theorem known_merge (records : LinkedTitles.Records) (p : PageUsages) (n : ℕ) :
    known (merge records p) n = if p.pageId = n then (known records n).addAll p.toList else known records n := by
  have hfind := records.find?_put ((known records p.pageId).addAll p.toList) n
  rw [pageId_addAll, pageId_known] at hfind
  rw [known, merge_eq, hfind]
  split
  · rename_i hpage
    rw [hpage]
    rfl
  · rfl

theorem toList_merge_of_notMem (h : p.pageId ∉ records.keys) :
    (merge records p).toList = records.toList ++ [.ofList p.pageId p.toList] := by
  rw [merge_eq, known_eq_of_notMem h]
  exact putBy_of_notMem pageId h

/-- A further record of a page lets the one that is there grow, at its place. -/
theorem toList_merge_of_split {l l' : List PageUsages} (h : records.toList = l ++ q :: l')
    (hpage : q.pageId = p.pageId) : (merge records p).toList = l ++ q.addAll p.toList :: l' := by
  have hknown : known records p.pageId = q := by
    rw [← hpage, known_eq_of_mem (h ▸ List.mem_append_right l List.mem_cons_self)]
  have hgrown : q.pageId = (q.addAll p.toList).pageId := rfl
  have hbefore : (q.addAll p.toList).pageId ∉ l.map pageId := by
    rw [← hgrown]
    exact key_notMem_of_nodup pageId (h ▸ records.nodup)
  calc (merge records p).toList
      = putBy pageId records.toList (q.addAll p.toList) := by rw [merge_eq, hknown]; rfl
    _ = putBy pageId (l ++ q :: l') (q.addAll p.toList) := by rw [h]
    _ = l ++ q.addAll p.toList :: l' := putBy_append_cons pageId hgrown hbefore

/-! ### A list of records -/

/-- **The pages after merging**: each one where it was first seen. -/
theorem keys_foldl_merge : ∀ (ps : List PageUsages) (records : LinkedTitles.Records),
    (ps.foldl merge records).keys = distinct (records.keys ++ ps.map pageId)
  | [], records => by
    rw [List.foldl_nil, List.map_nil, List.append_nil, records.distinct_keys]
  | p :: ps, records => by
    have hstep : (merge records p).keys = distinct (records.keys ++ [p.pageId]) := by
      rw [keys_merge, distinct_append, records.distinct_keys, List.foldl_cons, List.foldl_nil, insertBy, List.map_id, id]
    rw [List.foldl_cons, keys_foldl_merge ps, hstep, distinct_distinct_append, List.append_assoc, List.map_cons]
    rfl

/-- **The record of a page after merging**: the usages of its records are added one record after the other. -/
theorem known_foldl_merge (n : ℕ) : ∀ (ps : List PageUsages) (records : LinkedTitles.Records),
    known (ps.foldl merge records) n = (known records n).addAll ((ps.filter (·.pageId = n)).flatMap toList)
  | [], _ => rfl
  | p :: ps, records => by
    rw [List.foldl_cons, known_foldl_merge n ps, known_merge]
    by_cases hpage : p.pageId = n
    · rw [if_pos hpage, List.filter_cons_of_pos (by simpa using hpage), List.flatMap_cons, addAll_append]
    · rw [if_neg hpage, List.filter_cons_of_neg (by simpa using hpage)]

theorem known_mergeAll (lists : List (List PageUsages)) (n : ℕ) : known (lists.flatten.foldl merge Keyed.empty) n =
    ofList n ((lists.flatten.filter (·.pageId = n)).flatMap toList) :=
  known_foldl_merge n lists.flatten Keyed.empty

theorem map_pageId_mergeAll (lists : List (List PageUsages)) :
    (mergeAll lists).map pageId = distinct (lists.flatten.map pageId) :=
  keys_foldl_merge lists.flatten Keyed.empty

/-! ### Identities -/

/-- **The identities of a merged record** are those of all records of its page. -/
theorem mem_keys_of_mem_mergeAll (h : q ∈ mergeAll lists) :
    i ∈ q.usages.keys ↔ ∃ p ∈ lists.flatten, p.pageId = q.pageId ∧ i ∈ p.usages.keys := by
  have hq : q = ofList q.pageId ((lists.flatten.filter (·.pageId = q.pageId)).flatMap toList) :=
    (known_eq_of_mem h).symm.trans (known_mergeAll lists q.pageId)
  have hkeys : i ∈ q.usages.keys ↔
      i ∈ ((lists.flatten.filter (·.pageId = q.pageId)).flatMap toList).map Usage.identity := by
    rw [← mem_keys_ofList, ← hq]
  rw [hkeys, List.map_flatMap, List.mem_flatMap]
  simp only [List.mem_filter, decide_eq_true_eq, and_assoc]
  rfl

theorem findBy_mergeAll_eq_some : findBy pageId n (mergeAll lists) = some q ↔ q ∈ mergeAll lists ∧ q.pageId = n :=
  Keyed.find?_eq_some _

theorem findBy_mergeAll_eq_none : findBy pageId n (mergeAll lists) = none ↔ n ∉ (mergeAll lists).map pageId :=
  Keyed.find?_eq_none _

/-- **What is merged is what counts**, not in which lists, in which order and how often: for every page both results
have no record or equal ones. -/
theorem rel_same_mergeAll (h : ∀ p, p ∈ lists.flatten ↔ p ∈ lists'.flatten) (n : ℕ) :
    Option.Rel (fun p q => p.same q = true) (findBy pageId n (mergeAll lists)) (findBy pageId n (mergeAll lists')) := by
  have hpages : n ∈ (mergeAll lists).map pageId ↔ n ∈ (mergeAll lists').map pageId := by
    simp only [map_pageId_mergeAll, mem_distinct, List.mem_map, h]
  cases hp : findBy pageId n (mergeAll lists) with
  | none =>
    have hq : n ∉ (mergeAll lists').map pageId := mt hpages.mpr (findBy_mergeAll_eq_none.mp hp)
    rw [findBy_mergeAll_eq_none.mpr hq]
    exact .none
  | some p =>
    obtain ⟨hmem, rfl⟩ := findBy_mergeAll_eq_some.mp hp
    obtain ⟨q, hq, hid⟩ := List.mem_map.mp (hpages.mp (List.mem_map_of_mem hmem))
    rw [findBy_mergeAll_eq_some.mpr ⟨hq, hid⟩]
    refine .some (same_iff.mpr ⟨hid.symm, fun i => ?_⟩)
    rw [mem_keys_of_mem_mergeAll hmem, mem_keys_of_mem_mergeAll hq, hid]
    simp only [h]

/-! ### Usages -/

/-- **What merged records hold** is what the records of the lists hold. -/
theorem holds_mergeAll (hS : ∀ n, Set.InjOn Usage.identity (S n))
    (h : ∀ p ∈ lists.flatten, ∀ u ∈ p.toList, u ∈ S p.pageId) :
    Holds (mergeAll lists) n u ↔ Holds lists.flatten n u := by
  have hmem : ∀ v, v ∈ (lists.flatten.filter (·.pageId = n)).flatMap toList ↔ Holds lists.flatten n v := by
    simp only [List.mem_flatMap, List.mem_filter, decide_eq_true_eq, and_assoc, Holds, implies_true]
  have hinj : Set.InjOn Usage.identity {v | v ∈ (lists.flatten.filter (·.pageId = n)).flatMap toList} := by
    refine (hS n).mono fun v hv => ?_
    obtain ⟨p, hp, rfl, hvp⟩ := (hmem v).mp hv
    exact h p hp v hvp
  rw [mergeAll, ← mem_known, known_mergeAll, mem_ofList hinj, hmem]

theorem proper_mergeAll (hS : ∀ n, Set.InjOn Usage.identity (S n))
    (h : ∀ p ∈ lists.flatten, ∀ u ∈ p.toList, u ∈ S p.pageId) (hne : ∀ p ∈ lists.flatten, p.toList ≠ []) :
    Proper (mergeAll lists) := by
  refine ⟨Keyed.nodup _, fun p hp => ?_⟩
  have hpage : p.pageId ∈ distinct (lists.flatten.map pageId) :=
    map_pageId_mergeAll lists ▸ List.mem_map_of_mem hp
  obtain ⟨q, hq, hid⟩ := List.mem_map.mp (mem_distinct.mp hpage)
  obtain ⟨u, hu⟩ := List.exists_mem_of_ne_nil _ (hne q hq)
  have hu' : u ∈ p.toList := (mem_toList_iff_holds (Keyed.nodup _) hp).mpr
    ((holds_mergeAll hS h).mpr ⟨q, hq, hid, hu⟩)
  exact List.ne_nil_of_mem hu'

/-- Two lists of records for usages of one entity, merged. -/
theorem mergeAll_pair {e : EntityId} {qs : List PageUsages} (hps : ∀ n u, Holds ps n u → u.entity = e)
    (hqs : ∀ n u, Holds qs n u → u.entity = e) (hne : ∀ p ∈ ps ++ qs, p.toList ≠ []) :
    Proper (mergeAll [ps, qs]) ∧ ∀ n u, Holds (mergeAll [ps, qs]) n u ↔ Holds ps n u ∨ Holds qs n u := by
  have hflat : [ps, qs].flatten = ps ++ qs := by simp
  have hS : ∀ _ : ℕ, Set.InjOn Usage.identity {u | u.entity = e} := fun _ => Usage.identity_injOn fun _ hu => hu
  have hmem : ∀ p ∈ [ps, qs].flatten, ∀ u ∈ p.toList, u ∈ {u : Usage | u.entity = e} := by
    intro p hp u hu
    rw [hflat] at hp
    rcases holds_append.mp ⟨p, hp, rfl, hu⟩ with h | h
    · exact hps _ u h
    · exact hqs _ u h
  refine ⟨proper_mergeAll hS hmem fun p hp => hne p (hflat ▸ hp), fun n u => ?_⟩
  rw [holds_mergeAll hS hmem, hflat, holds_append]

end PageInvalidation.Finder
