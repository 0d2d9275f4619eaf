import PageInvalidation.Proofs.Usage.Page
import PageInvalidation.Usage.Narrowing

/-! # What narrowing reports

Which keys `narrowKeys` keeps, and which usages of a page that uses one entity.

* `Narrowing.mem_narrowKeys`: unless one side stands for everything, a key is kept if it is on one side
  and covered by a key of the other.
* `Narrowing.mem_apply_of_entity`: the usages reported for a page of one entity. -/

namespace PageInvalidation.Narrowing

variable {used relevant : List AspectKey} {k : AspectKey} {e : EntityId}

/-! ### Keys -/

theorem mem_coveredBy {keys others : List AspectKey} :
    k ∈ coveredBy keys others ↔ k ∈ keys ∧ k.isModified = true ∧ k.stripped ∈ others := by
  simp [coveredBy]

/-- A key of a list that is in another, or whose bare key is, is covered by one of the other. -/
theorem mem_and_mem_or_mem_coveredBy {keys others : List AspectKey} :
    (k ∈ keys ∧ k ∈ others) ∨ k ∈ coveredBy keys others ↔
      k ∈ keys ∧ ∃ other ∈ others, other.Covers k := by
  rw [mem_coveredBy, ← and_or_left]
  refine and_congr Iff.rfl ⟨?_, ?_⟩
  · rintro (h | ⟨-, h⟩)
    · exact ⟨k, h, .inl rfl⟩
    · exact ⟨k.stripped, h, .inr rfl⟩
  · rintro ⟨other, hmem, hcov⟩
    cases hm : k.isModified with
    | false => exact .inl ((AspectKey.covers_of_not_isModified hm).mp hcov ▸ hmem)
    | true =>
      rcases hcov with rfl | rfl
      · exact .inl hmem
      · exact .inr ⟨rfl, hmem⟩

theorem narrowKeys_nil_used : narrowKeys [] relevant = [] := rfl

theorem narrowKeys_of_used_all (h : .bare .all ∈ used) : narrowKeys used relevant = relevant := by
  have hne : used.isEmpty = false := List.isEmpty_eq_false_iff_exists_mem.mpr ⟨_, h⟩
  rw [narrowKeys, hne, if_neg Bool.false_ne_true, if_pos h]

/-- **The keys kept when no side stands for everything**: those on one side that a key of the other
covers. -/
theorem mem_narrowKeys (hu : .bare .all ∉ used) (hr : .bare .all ∉ relevant) :
    k ∈ narrowKeys used relevant ↔
      (k ∈ relevant ∧ ∃ u ∈ used, u.Covers k) ∨ (k ∈ used ∧ ∃ r ∈ relevant, r.Covers k) := by
  cases used with
  | nil => simp [narrowKeys]
  | cons u used =>
    rw [narrowKeys, List.isEmpty_cons, if_neg Bool.false_ne_true, if_neg hu, if_neg hr, mem_distinct,
      List.mem_append, List.mem_append, List.mem_filter, decide_eq_true_eq,
      ← mem_and_mem_or_mem_coveredBy, ← mem_and_mem_or_mem_coveredBy]
    constructor
    · rintro (h | h)
      · exact .inl h
      · exact .inr (.inr h)
    · rintro (h | h | h)
      · exact .inl h
      · exact .inl (.inl h.symm)
      · exact .inr h

theorem narrowKeys_nil_relevant : narrowKeys used [] = [] := by
  by_cases h : .bare .all ∈ used
  · exact narrowKeys_of_used_all h
  · refine List.eq_nil_iff_forall_not_mem.mpr fun k hk => ?_
    rcases (mem_narrowKeys h List.not_mem_nil).mp hk with ⟨h, -⟩ | ⟨-, r, h, -⟩
    · cases h
    · cases h

/-! ### Usages -/

theorem get_set (n : Narrowing) (e e' : EntityId) (keys : List AspectKey) :
    (n.set e keys).get e' = if e = e' then distinct keys else n.get e' := by
  have hfind : (n.set e keys).relevant.find? e' =
      if e = e' then some (e, distinct keys) else n.relevant.find? e' := n.relevant.find?_put _ e'
  rw [get, hfind, get]
  by_cases h : e = e'
  · rw [if_pos h, if_pos h]
  · rw [if_neg h, if_neg h]

theorem get_set_self (n : Narrowing) (e : EntityId) (keys : List AspectKey) :
    (n.set e keys).get e = distinct keys := by
  rw [get_set, if_pos rfl]

theorem narrowEntity_eq (n : Narrowing) (e : EntityId) (used : List AspectKey) :
    n.narrowEntity e used = (narrowKeys used (n.get e)).map (⟨e, ·⟩) := by
  simp only [narrowEntity]
  split
  · rename_i h
    rw [List.isEmpty_iff.mp h, narrowKeys_nil_relevant, List.map_nil]
  · rfl

theorem mem_narrowEntity (n : Narrowing) {u : Usage} :
    u ∈ n.narrowEntity e used ↔ u.entity = e ∧ u.key ∈ narrowKeys used (n.get e) := by
  rw [narrowEntity_eq, List.mem_map]
  constructor
  · rintro ⟨k, hk, rfl⟩
    exact ⟨rfl, hk⟩
  · rintro ⟨rfl, hk⟩
    exact ⟨u.key, hk, rfl⟩

theorem apply_eq_ofList (n : Narrowing) (p : PageUsages) : n.apply p =
    .ofList p.pageId (p.usages.entities.flatMap fun e => n.narrowEntity e (p.usages.keysOf e)) := by
  have h : ∀ (es : List EntityId) (q : PageUsages),
      es.foldl (fun q e => q.addAll (n.narrowEntity e (p.usages.keysOf e))) q =
        q.addAll (es.flatMap fun e => n.narrowEntity e (p.usages.keysOf e)) := by
    intro es
    induction es with
    | nil => exact fun q => rfl
    | cons e es ih =>
      intro q
      rw [List.foldl_cons, ih, List.flatMap_cons, PageUsages.addAll_append]
  exact h _ _

@[simp] theorem pageId_apply (n : Narrowing) (p : PageUsages) : (n.apply p).pageId = p.pageId := by
  rw [apply_eq_ofList, PageUsages.pageId_ofList]

/-- A usage is to be reported for a page. -/
def Reports (n : Narrowing) (p : PageUsages) (u : Usage) : Prop :=
  u.key ∈ narrowKeys (p.usages.keysOf u.entity) (n.get u.entity)

theorem mem_flatMap_narrowEntity (n : Narrowing) {p : PageUsages} {u : Usage} :
    u ∈ (p.usages.entities.flatMap fun e => n.narrowEntity e (p.usages.keysOf e)) ↔ n.Reports p u := by
  rw [List.mem_flatMap]
  constructor
  · rintro ⟨e, -, hu⟩
    obtain ⟨rfl, hk⟩ := n.mem_narrowEntity.mp hu
    exact hk
  · intro hu
    refine ⟨u.entity, ?_, n.mem_narrowEntity.mpr ⟨rfl, hu⟩⟩
    -- a key is reported, so the page has a usage of the entity
    rw [Reports] at hu
    cases hl : p.usages.keysOf u.entity with
    | nil =>
      rw [hl, narrowKeys_nil_used] at hu
      cases hu
    | cons k ks =>
      have hk : k ∈ p.usages.keysOf u.entity := hl ▸ List.mem_cons_self
      exact p.usages.mem_entities.mpr ⟨_, p.usages.mem_keysOf.mp hk, rfl⟩

theorem reports_of_mem_apply (n : Narrowing) {p : PageUsages} {u : Usage} (hu : u ∈ (n.apply p).toList) :
    n.Reports p u := by
  rw [apply_eq_ofList] at hu
  exact n.mem_flatMap_narrowEntity.mp (PageUsages.mem_of_mem_ofList hu)

/-- **The identities in the record of a narrowed page** are those of what is to be reported. -/
theorem mem_keys_apply (n : Narrowing) {p : PageUsages} {i : Text.CodeText} :
    i ∈ (n.apply p).usages.keys ↔ ∃ u, n.Reports p u ∧ u.identity = i := by
  rw [apply_eq_ofList, PageUsages.mem_keys_ofList, List.mem_map]
  exact exists_congr fun u => and_congr n.mem_flatMap_narrowEntity Iff.rfl

/-- **The usages in the record of a narrowed page**, if their identities tell them apart. -/
theorem mem_apply_of_injOn (n : Narrowing) {p : PageUsages} (h : Set.InjOn Usage.identity {v | n.Reports p v})
    {u : Usage} : u ∈ (n.apply p).toList ↔ n.Reports p u := by
  rw [apply_eq_ofList, PageUsages.mem_ofList, mem_flatMap_narrowEntity]
  simpa only [mem_flatMap_narrowEntity] using h

theorem exists_mem_of_reports (n : Narrowing) {p : PageUsages} {u : Usage} (h : n.Reports p u) :
    ∃ v ∈ p.toList, v.entity = u.entity := by
  obtain ⟨e, he, hu⟩ := List.mem_flatMap.mp (n.mem_flatMap_narrowEntity.mpr h)
  obtain ⟨rfl, -⟩ := n.mem_narrowEntity.mp hu
  exact p.usages.mem_entities.mp he

/-- **What is reported for a page of one entity.** -/
theorem mem_apply_of_entity (n : Narrowing) {p : PageUsages} (hp : ∀ u ∈ p.toList, u.entity = e)
    {u : Usage} : u ∈ (n.apply p).toList ↔
      u.entity = e ∧ u.key ∈ narrowKeys (p.usages.keysOf e) (n.get e) := by
  have hentity : ∀ v, n.Reports p v → v.entity = e := by
    intro v hv
    obtain ⟨w, hw, hentity⟩ := n.exists_mem_of_reports hv
    exact hentity.symm.trans (hp w hw)
  rw [n.mem_apply_of_injOn (Usage.identity_injOn hentity)]
  constructor
  · intro hu
    obtain rfl := hentity u hu
    exact ⟨rfl, hu⟩
  · rintro ⟨rfl, hu⟩
    exact hu

end PageInvalidation.Narrowing
