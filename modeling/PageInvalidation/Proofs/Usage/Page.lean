import PageInvalidation.Proofs.Keyed
import PageInvalidation.Proofs.Usage.Identity
import PageInvalidation.Usage.Page

/-! # What is in a page record

Usages of one entity are told apart by their identities (`Usage.identity_injOn`), so a record made of a
list of them holds exactly the usages of the list (`PageUsages.mem_ofList`). A record of any list of usages holds the
first of each identity; these are the distinct usages of the list exactly if none runs into another
(`PageUsages.record_exactly_unless_runsInto`). -/

namespace PageInvalidation

/-! ### Sets of usages -/

namespace UsageSet

variable (s : UsageSet) {e : EntityId} {k : AspectKey} {u : Usage}

theorem mem_entities : e ∈ s.entities ↔ ∃ u ∈ s.toList, u.entity = e := by
  rw [entities, mem_distinct, List.mem_map]

theorem mem_ofEntity : u ∈ s.ofEntity e ↔ u ∈ s.toList ∧ u.entity = e := by
  simp [ofEntity]

theorem mem_keysOf : k ∈ s.keysOf e ↔ (⟨e, k⟩ : Usage) ∈ s.toList := by
  rw [keysOf, mem_distinct, List.mem_map]
  constructor
  · rintro ⟨u, hu, rfl⟩
    obtain ⟨hmem, rfl⟩ := s.mem_ofEntity.mp hu
    exact hmem
  · intro hu
    exact ⟨⟨e, k⟩, s.mem_ofEntity.mpr ⟨hu, rfl⟩, rfl⟩

end UsageSet

/-! ### Page records -/

namespace PageUsages

variable {n : ℕ} {us : List Usage} {u : Usage}

@[simp] theorem pageId_addAll (p : PageUsages) : (p.addAll us).pageId = p.pageId := rfl

@[simp] theorem pageId_ofList : (ofList n us).pageId = n := rfl

@[simp] theorem toList_empty : (empty n).toList = [] := rfl

theorem nodup_toList (p : PageUsages) : p.toList.Nodup := p.usages.nodup_toList

theorem addAll_append (p : PageUsages) (us us' : List Usage) :
    p.addAll (us ++ us') = (p.addAll us).addAll us' := by
  unfold addAll
  rw [p.usages.insertAll_append]

theorem foldl_addAll : ∀ (chunks : List (List Usage)) (p : PageUsages),
    chunks.foldl addAll p = p.addAll chunks.flatten
  | [], _ => rfl
  | us :: chunks, p => by
    rw [List.foldl_cons, foldl_addAll chunks, List.flatten_cons, addAll_append]

/-- **A record of a list holds its usages**, if their identities tell them apart. -/
theorem mem_ofList (h : Set.InjOn Usage.identity {v | v ∈ us}) :
    u ∈ (ofList n us).toList ↔ u ∈ us := Keyed.mem_ofList h

theorem mem_of_mem_ofList (h : u ∈ (ofList n us).toList) : u ∈ us :=
  ((Keyed.empty : UsageSet).mem_of_mem_insertAll h).resolve_left List.not_mem_nil

theorem mem_keys_ofList {i : Text.CodeText} : i ∈ (ofList n us).usages.keys ↔ i ∈ us.map Usage.identity :=
  (Keyed.empty : UsageSet).mem_keys_insertAll.trans (or_iff_right List.not_mem_nil)

theorem ofList_toList (p : PageUsages) : ofList p.pageId p.toList = p :=
  congrArg (PageUsages.mk p.pageId) p.usages.ofList_toList

theorem isEmpty_iff (p : PageUsages) : p.isEmpty = true ↔ p.toList = [] := p.usages.isEmpty_iff

theorem pageIdOfInt_eq_ok {m : Int} : pageIdOfInt m = .ok n ↔ m = n := by
  unfold pageIdOfInt
  split
  · rw [Except.ok.injEq]
    omega
  · refine ⟨nofun, fun h => ?_⟩
    omega

/-! ### Lists of records -/

/-- A record of a list holds a usage for a page. -/
def Holds (ps : List PageUsages) (n : ℕ) (u : Usage) : Prop := ∃ p ∈ ps, p.pageId = n ∧ u ∈ p.toList

/-- The records are for distinct pages, and none is empty. -/
structure Proper (ps : List PageUsages) : Prop where
  nodup : (ps.map pageId).Nodup
  ne_nil : ∀ p ∈ ps, p.toList ≠ []

variable {ps qs : List PageUsages} {p : PageUsages}

theorem holds_append : Holds (ps ++ qs) n u ↔ Holds ps n u ∨ Holds qs n u := by
  simp only [Holds, List.mem_append, or_and_right, exists_or]

theorem mem_toList_iff_holds (h : (ps.map pageId).Nodup) (hp : p ∈ ps) :
    u ∈ p.toList ↔ Holds ps p.pageId u := by
  constructor
  · exact fun hu => ⟨p, hp, rfl, hu⟩
  · rintro ⟨q, hq, hid, hu⟩
    exact List.inj_on_of_nodup_map h hq hp hid ▸ hu

namespace Proper

theorem mem_pageId_iff (h : Proper ps) : n ∈ ps.map pageId ↔ ∃ u, Holds ps n u := by
  rw [List.mem_map]
  constructor
  · rintro ⟨p, hp, rfl⟩
    obtain ⟨u, hu⟩ := List.exists_mem_of_ne_nil _ (h.ne_nil p hp)
    exact ⟨u, p, hp, rfl, hu⟩
  · rintro ⟨u, p, hp, hid, -⟩
    exact ⟨p, hp, hid⟩

theorem filter (h : Proper ps) (q : PageUsages → Bool) : Proper (ps.filter q) :=
  ⟨h.nodup.sublist (List.filter_sublist.map pageId), fun p hp => h.ne_nil p (List.mem_of_mem_filter hp)⟩

end Proper

/-! ### Equal records -/

/-- **Two records are equal** if they are for the same page and hold the same identities. -/
theorem same_iff {q : PageUsages} :
    p.same q = true ↔ p.pageId = q.pageId ∧ ∀ i, i ∈ p.usages.keys ↔ i ∈ q.usages.keys := by
  simp only [same, UsageSet.sameIdentities, Keyed.contains, Bool.and_eq_true, beq_iff_eq, List.all_eq_true,
    decide_eq_true_eq]
  refine and_congr Iff.rfl ⟨?_, fun h => ⟨fun i => (h i).mp, fun i => (h i).mpr⟩⟩
  rintro ⟨hpq, hqp⟩ i
  exact ⟨hpq i, hqp i⟩

theorem same_of_mem_iff {q : PageUsages} (hid : p.pageId = q.pageId) (h : ∀ u, u ∈ p.toList ↔ u ∈ q.toList) :
    p.same q = true := by
  refine same_iff.mpr ⟨hid, fun i => ?_⟩
  simp only [Keyed.mem_keys]
  exact exists_congr fun u => and_congr (h u) Iff.rfl

/-- Records by ascending page number that hold the same are for the same pages in the same order. -/
theorem map_pageId_eq (hps : Proper ps) (hqs : Proper qs) (hps' : (ps.map pageId).Pairwise (· < ·))
    (hqs' : (qs.map pageId).Pairwise (· < ·)) (h : ∀ n u, Holds ps n u ↔ Holds qs n u) :
    ps.map pageId = qs.map pageId := by
  have hmem : ∀ n, n ∈ ps.map pageId ↔ n ∈ qs.map pageId := fun n => by
    rw [hps.mem_pageId_iff, hqs.mem_pageId_iff]
    exact exists_congr fun u => h n u
  have hperm : (ps.map pageId).Perm (qs.map pageId) := (List.perm_ext_iff_of_nodup hps.nodup hqs.nodup).mpr hmem
  exact hperm.eq_of_pairwise (fun a b _ _ hab hba => absurd hab hba.asymm) hps' hqs'

theorem forall₂_same (hps : Proper ps) (hqs : Proper qs) (hids : ps.map pageId = qs.map pageId)
    (h : ∀ n u, Holds ps n u ↔ Holds qs n u) : List.Forall₂ (fun p q => p.same q = true) ps qs := by
  have hpairs : List.Forall₂ (fun p q => p.pageId = q.pageId) ps qs := by
    refine List.forall₂_map_left_iff.mp (List.forall₂_map_right_iff.mp ?_)
    rw [hids]
    exact List.forall₂_refl _
  obtain ⟨hlength, hzip⟩ := List.forall₂_iff_zip.mp hpairs
  refine List.forall₂_iff_zip.mpr ⟨hlength, fun {p q} hpq => ?_⟩
  obtain ⟨hp, hq⟩ := List.of_mem_zip hpq
  refine same_of_mem_iff (hzip hpq) fun u => ?_
  rw [mem_toList_iff_holds hps.nodup hp, mem_toList_iff_holds hqs.nodup hq, h, hzip hpq]

/-! ### Usages that are taken for others -/

/-- **What a record holds of the usages given to it**, in one list or several: the first usage of each identity, in
the order of these. They are the distinct usages exactly if no usage runs into another. -/
theorem record_exactly_unless_runsInto (n : ℕ) (chunks : List (List Usage)) :
    let p := chunks.foldl addAll (empty n)
    let us := chunks.flatten
    p.pageId = n ∧ p.toList.map Usage.identity = distinct (us.map Usage.identity) ∧
      (∀ u, u ∈ p.toList ↔ us.find? (fun v => v.identity = u.identity) = some u) ∧
      (p.toList = distinct us ↔ ∀ u ∈ us, ∀ v ∈ us, ¬u.RunsInto v) := by
  intro p us
  have hp : p = ofList n us := foldl_addAll chunks (empty n)
  have hkeys : (ofList n us).usages.keys = distinct (us.map Usage.identity) :=
    (Keyed.empty : UsageSet).keys_insertAll us
  have hmem : ∀ u, u ∈ (ofList n us).toList ↔ us.find? (fun v => v.identity = u.identity) = some u := by
    intro u
    rw [← Keyed.find?_ofList, Keyed.find?_eq_some, and_iff_left rfl]
    rfl
  have hapart : Set.InjOn Usage.identity {u | u ∈ us} ↔ ∀ u ∈ us, ∀ v ∈ us, ¬u.RunsInto v := Usage.identity_injOn_iff
  rw [hp, ← hapart]
  refine ⟨rfl, hkeys, hmem, ?_⟩
  constructor
  · intro hall
    have hinj : Set.InjOn Usage.identity {u | u ∈ (ofList n us).toList} := (ofList n us).usages.injOn
    rw [hall] at hinj
    exact hinj.mono fun u hu => mem_distinct.mpr hu
  · exact Keyed.toList_ofList_of_injOn

/-- Two usages of different entities with one identity: only the first is recorded. -/
theorem second_of_identity_lost :
    let u : Usage := ⟨⟨"Q1", by decide⟩, ⟨.label, some "en#L.de", by rintro _ ⟨⟩; decide⟩⟩
    let v : Usage := ⟨⟨"Q1#L.en", by decide⟩, ⟨.label, some "de", by rintro _ ⟨⟩; decide⟩⟩
    u ≠ v ∧ u.identity = "Q1#L.en#L.de" ∧ v.identity = "Q1#L.en#L.de" ∧
      ((empty 1).addAll [u] |>.addAll [v]).toList = [u] ∧ ((empty 1).addAll [v] |>.addAll [u]).toList = [v] := by
  decide

end PageUsages

end PageInvalidation
