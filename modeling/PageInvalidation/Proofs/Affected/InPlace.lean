import PageInvalidation.Proofs.Affected.Merging

/-! # Merging in place

A merge need not make a new record whenever a record is added: it can copy the first record of a page and let the copy
grow. Here records are in cells. The sources come first, copies are put behind them, and only a copy is ever changed, so
all the sources stay as they are while the copies are the merged records at any time (`Collecting.Represents`). Taking
records up from any cells of the sources, in any lists, therefore merges them (`Collecting.merged_in_place`). -/

namespace PageInvalidation

section Lists

variable {α β : Type}

theorem modify_append_cons {f : α → α} {a : α} {l' : List α} :
    ∀ l : List α, (l ++ a :: l').modify l.length f = l ++ f a :: l'
  | [] => List.modify_zero_cons f a l'
  | b :: l => by rw [List.cons_append, List.length_cons, List.modify_succ_cons, modify_append_cons l, List.cons_append]

theorem filterMap_getElem?_zipIdx (f : α → β) : ∀ l before : List α,
    ((l.map f).zipIdx before.length).filterMap (fun place => (before ++ l)[place.2]?) = l
  | [], _ => rfl
  | a :: l, before => by
    have hrest := filterMap_getElem?_zipIdx f l (before ++ [a])
    rw [List.length_append, List.length_singleton, List.append_assoc, List.singleton_append] at hrest
    rw [List.map_cons, List.zipIdx_cons, List.filterMap_cons, hrest]
    simp

end Lists

open PageUsages Finder

/-- Records in cells that can be changed, and the cell of each page that was collected. -/
structure Collecting where
  cells : List PageUsages
  places : Keyed (Prod.fst : ℕ × ℕ → ℕ)

namespace Collecting

/-- Before the first record is taken up. -/
def start (sources : List PageUsages) : Collecting := ⟨sources, Keyed.empty⟩

/-- Takes up the record of a cell: a known page gets its usages, for another page it is copied to a new cell. -/
def take (c : Collecting) (cell : ℕ) : Collecting :=
  match c.cells[cell]? with
  | none => c
  | some p =>
    match c.places.find? p.pageId with
    | none => ⟨c.cells ++ [.ofList p.pageId p.toList], c.places.put (p.pageId, c.cells.length)⟩
    | some place => ⟨c.cells.modify place.2 (·.addAll p.toList), c.places⟩

/-- Takes up the records of some cells of the sources, list by list. -/
def takeAll (sources : List PageUsages) (lists : List (List (Fin sources.length))) : Collecting :=
  lists.flatten.foldl (fun c cell => c.take cell) (start sources)

/-- The records collected, in the order of their pages. -/
def records (c : Collecting) : List PageUsages := c.places.toList.filterMap fun place => c.cells[place.2]?

/-- **What holds all the time**: behind the sources are the merged records, and each page's place is that of its
record. -/
structure Represents (sources : List PageUsages) (merged : LinkedTitles.Records) (c : Collecting) : Prop where
  cells_eq : c.cells = sources ++ merged.toList
  places_eq : c.places.toList = merged.keys.zipIdx sources.length

variable {sources : List PageUsages} {merged : LinkedTitles.Records} {c : Collecting} {p q : PageUsages}

theorem start_represents (sources : List PageUsages) : Represents sources Keyed.empty (start sources) :=
  ⟨(List.append_nil sources).symm, rfl⟩

namespace Represents

variable (h : Represents sources merged c)

include h

theorem keys_places : c.places.keys = merged.keys := by
  rw [Keyed.keys, h.places_eq, List.zipIdx_map_fst]

theorem find?_of_notMem {n : ℕ} (hn : n ∉ merged.keys) : c.places.find? n = none := by
  rw [Keyed.find?_eq_none, h.keys_places]
  exact hn

theorem find?_of_split {l l' : List PageUsages} (hsplit : merged.toList = l ++ q :: l') :
    c.places.find? q.pageId = some (q.pageId, sources.length + l.length) := by
  refine (Keyed.find?_eq_some _).mpr ⟨?_, rfl⟩
  rw [h.places_eq, Keyed.keys, hsplit, List.map_append, List.zipIdx_append, List.map_cons, List.zipIdx_cons,
    List.length_map]
  exact List.mem_append_right _ List.mem_cons_self

theorem getElem?_source {cell : ℕ} (hcell : sources[cell]? = some p) : c.cells[cell]? = some p := by
  rw [h.cells_eq, List.getElem?_append_left (List.getElem?_eq_some_iff.mp hcell).1, hcell]

/-- A page that is not known gets a new cell, which holds a copy. -/
theorem take_new {cell : ℕ} (hcell : sources[cell]? = some p) (hp : p.pageId ∉ merged.keys) :
    Represents sources (merge merged p) (c.take cell) := by
  have htake : c.take cell = ⟨c.cells ++ [.ofList p.pageId p.toList], c.places.put (p.pageId, c.cells.length)⟩ := by
    rw [take, h.getElem?_source hcell]
    dsimp only
    rw [h.find?_of_notMem hp]
  have hkeys : (merge merged p).keys = merged.keys ++ [p.pageId] := by rw [keys_merge, if_neg hp]
  have hplace : (p.pageId, c.cells.length).1 ∉ c.places.toList.map Prod.fst := by
    have hplaces := h.keys_places
    rw [Keyed.keys] at hplaces
    rwa [hplaces]
  have hlength : merged.keys.length = merged.toList.length := List.length_map _
  rw [htake]
  refine ⟨?_, ?_⟩
  · rw [toList_merge_of_notMem hp, h.cells_eq, List.append_assoc]
  · rw [hkeys, List.zipIdx_append, ← h.places_eq, hlength, ← List.length_append, ← h.cells_eq]
    exact putBy_of_notMem Prod.fst hplace

/-- The cell of a known page is changed, and no other. -/
theorem take_known {cell : ℕ} (hcell : sources[cell]? = some p) (hp : p.pageId ∈ merged.keys) :
    Represents sources (merge merged p) (c.take cell) := by
  obtain ⟨q, hq, hpage⟩ := merged.mem_keys.mp hp
  obtain ⟨l, l', hsplit⟩ := List.append_of_mem hq
  have htake : c.take cell = ⟨c.cells.modify (sources.length + l.length) (·.addAll p.toList), c.places⟩ := by
    rw [take, h.getElem?_source hcell]
    dsimp only
    rw [← hpage, h.find?_of_split hsplit]
  have hkeys : (merge merged p).keys = merged.keys := by rw [keys_merge, if_pos hp]
  rw [htake]
  refine ⟨?_, ?_⟩
  · dsimp only
    rw [h.cells_eq, hsplit, toList_merge_of_split hsplit hpage, ← List.length_append, ← List.append_assoc,
      modify_append_cons, List.append_assoc]
  · rw [hkeys]
    exact h.places_eq

/-- **One record more**: taking up the record of a source merges it. -/
theorem take (cell : Fin sources.length) : Represents sources (merge merged (sources.get cell)) (c.take cell) := by
  have hcell : sources[cell.val]? = some (sources.get cell) := List.getElem?_eq_getElem cell.isLt
  by_cases hp : (sources.get cell).pageId ∈ merged.keys
  · exact h.take_known hcell hp
  · exact h.take_new hcell hp

theorem records_eq : c.records = merged.toList := by
  rw [records, h.places_eq, h.cells_eq]
  exact filterMap_getElem?_zipIdx pageId merged.toList sources

end Represents

/-- **A run merges what it takes up.** -/
theorem foldl_represents : ∀ (cells : List (Fin sources.length)) {merged : LinkedTitles.Records} {c : Collecting},
    Represents sources merged c →
      Represents sources ((cells.map sources.get).foldl merge merged) (cells.foldl (fun c cell => c.take cell) c)
  | [], _, _, h => h
  | cell :: cells, _, _, h => foldl_represents cells (h.take cell)

theorem takeAll_represents (lists : List (List (Fin sources.length))) :
    Represents sources ((lists.map (·.map sources.get)).flatten.foldl merge Keyed.empty) (takeAll sources lists) := by
  have hlists : (lists.map (·.map sources.get)).flatten = lists.flatten.map sources.get := List.map_flatten.symm
  rw [hlists]
  exact foldl_represents lists.flatten (start_represents sources)

theorem records_takeAll (lists : List (List (Fin sources.length))) :
    (takeAll sources lists).records = mergeAll (lists.map (·.map sources.get)) :=
  (takeAll_represents lists).records_eq

/-- The sources stay as they are, with the records collected behind them. -/
theorem cells_takeAll (lists : List (List (Fin sources.length))) :
    (takeAll sources lists).cells = sources ++ (takeAll sources lists).records := by
  rw [(takeAll_represents lists).records_eq, (takeAll_represents lists).cells_eq]

/-- **Merging in place is a union.** Two lists of records that are taken up one after the other, whatever cells they
name and however often, are merged: there is one record for each page, where the page was first seen, and it has just
the identities of all records of its page. No merge changes a source. The lists in another order, or more than once
each, give for every page an equal record. -/
theorem merged_in_place (sources : List PageUsages) (cells cells' : List (Fin sources.length)) :
    let c := takeAll sources [cells, cells']
    let ps := cells.map sources.get
    let qs := cells'.map sources.get
    c.records = mergeAll [ps, qs] ∧
      c.records.map pageId = distinct ((ps ++ qs).map pageId) ∧
      (∀ q ∈ c.records, ∀ i, i ∈ q.usages.keys ↔ ∃ p ∈ ps ++ qs, p.pageId = q.pageId ∧ i ∈ p.usages.keys) ∧
      (∀ lists, (takeAll sources lists).cells = sources ++ (takeAll sources lists).records) ∧
      ∀ lists : List (List (Fin sources.length)), (∀ l, l ∈ lists ↔ l = cells ∨ l = cells') →
        ∀ n, Option.Rel (fun p q => p.same q = true) (findBy pageId n c.records)
          (findBy pageId n (takeAll sources lists).records) := by
  intro c ps qs
  have hflat : [ps, qs].flatten = ps ++ qs := by simp
  have hrecords : c.records = mergeAll [ps, qs] := records_takeAll [cells, cells']
  rw [hrecords, ← hflat]
  refine ⟨rfl, map_pageId_mergeAll [ps, qs], fun q hq i => mem_keys_of_mem_mergeAll hq, cells_takeAll,
    fun lists hlists n => ?_⟩
  rw [records_takeAll]
  refine rel_same_mergeAll (fun p => ?_) n
  simp [hlists, ps, qs]

/-- Two records of one page and one of another, the second of them in both lists; once more with the lists the other way
round and one of them twice. -/
theorem merged_in_place_overlapping :
    let u : Usage := ⟨⟨"Q1", by decide⟩, .bare .title⟩
    let v : Usage := ⟨⟨"Q1", by decide⟩, .bare .label⟩
    let sources := [PageUsages.ofList 1 [u], .ofList 1 [v], .ofList 2 [u]]
    let again := takeAll sources [[1, 2], [0, 1], [1, 2]]
    (∀ l : List (Fin 3), l ∈ [[1, 2], [0, 1], [1, 2]] ↔ l = [0, 1] ∨ l = [1, 2]) ∧
      (takeAll sources [[0, 1], [1, 2]]).records.map toList = [[u, v], [u]] ∧ again.records.map toList = [[v, u], [u]] ∧
      again.cells.take 3 = sources ∧
      ∀ n, Option.Rel (fun p q => p.same q = true) (findBy pageId n (takeAll sources [[0, 1], [1, 2]]).records)
        (findBy pageId n again.records) := by
  intro u v sources again
  have hlists : ∀ l : List (Fin 3), l ∈ [[1, 2], [0, 1], [1, 2]] ↔ l = [0, 1] ∨ l = [1, 2] := fun l => by
    simp only [List.mem_cons, List.not_mem_nil, or_false]
    tauto
  have hmerged := merged_in_place sources [0, 1] [1, 2]
  refine ⟨hlists, by decide, by decide, ?_, hmerged.2.2.2.2 _ hlists⟩
  rw [hmerged.2.2.2.1]
  rfl

end Collecting

end PageInvalidation
