import Mathlib.Data.List.DropRight
import PageInvalidation.Proofs.Usage.Store

/-! # What edits leave in the store

The store is edited by recording, replacing and forgetting the usages of a page. Whatever the edits and their
order, a page holds what was given to it from its last reset on, each identity where it was first seen
(`UsageStore.edits_recorded`); an identity leaves the store only with an edit that hands it back. One edit is
followed by the usages that it leaves for a page (`UsageStore.usages_replace`, `UsageStore.usages_prune`), a run by
induction on its last edit. -/

namespace PageInvalidation.UsageStore

/-! ### Edits -/

/-- A change of what is recorded for a page. -/
inductive Edit where
  | add (page : ℤ) (us : List Usage)
  | replace (page : ℤ) (us : List Usage)
  | prune (page : ℤ)

namespace Edit

/-- The page that is edited. -/
def page : Edit → ℤ
  | add page _ => page
  | replace page _ => page
  | prune page => page

/-- The usages that come with an edit. -/
def usages : Edit → List Usage
  | add _ us => us
  | replace _ us => us
  | prune _ => []

/-- Whether what the page held before is given up. -/
def isReset : Edit → Bool
  | add _ _ => false
  | replace _ _ => true
  | prune _ => true

/-- What is given to a page. -/
def given (n : ℤ) (e : Edit) : List Usage := if e.page = n then e.usages else []

/-- Whether what a page held before is given up. -/
def resets (n : ℤ) (e : Edit) : Bool := e.page = n && e.isReset

/-- What an edit should hand back: the usages that it gives up, in the order in which they were recorded. -/
def handedBack (s : UsageStore) : Edit → List Usage
  | add _ _ => []
  | replace page us => (s.usages page).toList.filter fun u => u.identity ∉ us.map Usage.identity
  | prune page => (s.usages page).toList

/-- The store after an edit, and the usages that the edit hands back. -/
def run (s : UsageStore) : Edit → UsageStore × Except Usage.Error (List Usage)
  | add page us =>
    let (s, result) := s.addEntries page (us.map .usage)
    (s, result.map fun _ => [])
  | replace page us => s.replaceEntries page (us.map .usage)
  | prune page =>
    let (s, us) := s.forget page
    (s, .ok us)

end Edit

/-- The store after edits one after the other. -/
def after (es : List Edit) : UsageStore := es.foldl (fun s e => (e.run s).1) empty

/-- The last reset of a page and the edits since. -/
def sinceReset (n : ℤ) (es : List Edit) : List Edit :=
  (es.rdropWhile fun e => !e.resets n).getLast?.toList ++ es.rtakeWhile fun e => !e.resets n

/-- What was given to a page from its last reset on. -/
def recorded (n : ℤ) (es : List Edit) : List Usage := (sinceReset n es).flatMap (Edit.given n)

variable {s : UsageStore} {e : Edit} {es : List Edit} {n : ℤ} {us : List Usage}

theorem after_concat (es : List Edit) (e : Edit) : after (es ++ [e]) = (e.run (after es)).1 :=
  List.foldl_concat _ _ _ _

theorem sinceReset_concat (n : ℤ) (es : List Edit) (e : Edit) :
    sinceReset n (es ++ [e]) = if e.resets n then [e] else sinceReset n es ++ [e] := by
  rw [sinceReset, List.rdropWhile_concat, List.rtakeWhile_concat]
  cases e.resets n with
  | true => simp
  | false => simp [sinceReset]

/-! ### One edit -/

theorem Edit.resets_of_page (h : e.page = n) : e.resets n = e.isReset := by simp [Edit.resets, h]

theorem Edit.given_of_page (h : e.page = n) : e.given n = e.usages := if_pos h

theorem spanUsages_usages : ∀ us : List Usage, spanUsages (us.map .usage) = (us, none)
  | [] => rfl
  | u :: us => by rw [List.map_cons, spanUsages, spanUsages_usages us]

theorem run_add (s : UsageStore) (n : ℤ) (us : List Usage) : (Edit.add n us).run s = (s.add n us, .ok []) := by
  rw [Edit.run, addEntries, spanUsages_usages]
  rfl

theorem run_replace (s : UsageStore) (n : ℤ) (us : List Usage) :
    (Edit.replace n us).run s = (s.replace n us, .ok (s.dropped n (Keyed.ofListLast us))) := by
  rw [Edit.run, replaceEntries, spanUsages_usages]

theorem dropped_eq (s : UsageStore) (n : ℤ) (us : List Usage) :
    s.dropped n (Keyed.ofListLast us) = (Edit.replace n us).handedBack s := by
  refine List.filter_congr fun u _ => ?_
  have hcontains : (Keyed.ofListLast us : UsageSet).contains u.identity = true ↔ u.identity ∈ us.map Usage.identity := by
    rw [Keyed.contains_iff, Keyed.keys_ofListLast, mem_distinct]
  rw [Bool.eq_iff_iff, Bool.not_eq_true', ← Bool.not_eq_true, hcontains, decide_eq_true_eq]

/-- **An edit succeeds** and hands back what it should. -/
theorem result_run (s : UsageStore) (e : Edit) : (e.run s).2 = .ok (e.handedBack s) := by
  cases e with
  | add n us => rw [run_add]; rfl
  | replace n us => rw [run_replace, dropped_eq]
  | prune n => rfl

theorem usages_eq (s : UsageStore) (n : ℤ) :
    s.usages n = ((s.pages.find? n).map Prod.snd).getD Keyed.empty := by
  unfold usages
  cases s.pages.find? n <;> rfl

theorem usages_prune (s : UsageStore) (m k : ℤ) :
    (s.prune m).usages k = if m = k then Keyed.empty else s.usages k := by
  have hfind : (s.prune m).pages.find? k = if m = k then none else s.pages.find? k := s.pages.find?_erase m k
  rw [usages_eq, hfind, usages_eq]
  by_cases h : m = k <;> simp [h]

theorem usages_replace (s : UsageStore) (m k : ℤ) (us : List Usage) :
    (s.replace m us).usages k = if m = k then Keyed.ofListLast us else s.usages k := by
  unfold replace
  dsimp only
  split
  · rename_i hempty
    -- a page that would hold nothing is forgotten
    rw [Keyed.eq_empty_of_isEmpty hempty]
    exact usages_prune s m k
  · have hfind : (s.pages.put (m, (Keyed.ofListLast us : UsageSet))).find? k =
        if m = k then some (m, Keyed.ofListLast us) else s.pages.find? k := s.pages.find?_put _ k
    rw [usages_eq, hfind, usages_eq]
    by_cases h : m = k <;> simp [h]

theorem usages_run_of_ne (s : UsageStore) (h : e.page ≠ n) : (e.run s).1.usages n = s.usages n := by
  cases e with
  | add m us =>
    rw [run_add, usages_add]
    exact if_neg h
  | replace m us =>
    rw [run_replace, usages_replace]
    exact if_neg h
  | prune m => exact (usages_prune s m n).trans (if_neg h)

/-- **The identities of a page after an edit**: what the edit gives it comes behind what it held, if that is kept. -/
theorem keys_run (s : UsageStore) (e : Edit) (n : ℤ) : ((e.run s).1.usages n).keys =
    distinct ((if e.resets n then [] else (s.usages n).keys) ++ (e.given n).map Usage.identity) := by
  by_cases hpage : e.page = n
  · rw [e.resets_of_page hpage, e.given_of_page hpage, ← hpage]
    cases e with
    | add m us =>
      rw [run_add]
      exact (congrArg Keyed.keys ((usages_add s m m us).trans (if_pos rfl))).trans (Keyed.keys_insertAll _ us)
    | replace m us =>
      rw [run_replace]
      exact (congrArg Keyed.keys ((usages_replace s m m us).trans (if_pos rfl))).trans (Keyed.keys_ofListLast us)
    | prune m => exact congrArg Keyed.keys ((usages_prune s m m).trans (if_pos rfl))
  · have hresets : e.resets n = false := by simp [Edit.resets, hpage]
    have hgiven : e.given n = [] := if_neg hpage
    rw [usages_run_of_ne s hpage, hresets, hgiven]
    simp [Keyed.distinct_keys]

/-- **An identity leaves a page with an edit that hands it back**, and with no other. -/
theorem notMem_keys_run_iff {i : Text.CodeText} (hi : i ∈ (s.usages n).keys) :
    i ∉ ((e.run s).1.usages n).keys ↔ e.page = n ∧ i ∈ (e.handedBack s).map Usage.identity := by
  by_cases hpage : e.page = n
  · rw [keys_run, mem_distinct, e.resets_of_page hpage, e.given_of_page hpage, and_iff_right hpage]
    obtain ⟨u, hu, rfl⟩ := (s.usages n).mem_keys.mp hi
    cases hpage
    cases e with
    | add m us => simp [Edit.isReset, Edit.handedBack, hi]
    | replace m us =>
      have hu' : u ∈ (s.usages m).toList := hu
      simp only [Edit.isReset, Edit.usages, Edit.handedBack, if_true, List.nil_append, List.mem_map, List.mem_filter,
        decide_eq_true_eq]
      constructor
      · exact fun hfresh => ⟨u, ⟨hu', hfresh⟩, rfl⟩
      · rintro ⟨v, ⟨-, hfresh⟩, hv⟩
        rwa [← hv]
    | prune m =>
      have hu' : u ∈ (s.usages m).toList := hu
      simpa [Edit.isReset, Edit.usages, Edit.handedBack] using ⟨u, hu', rfl⟩
  · rw [usages_run_of_ne s hpage]
    simp [hi, hpage]

/-! ### Runs -/

theorem recorded_concat (n : ℤ) (es : List Edit) (e : Edit) :
    recorded n (es ++ [e]) = (if e.resets n then [] else recorded n es) ++ e.given n := by
  rw [recorded, sinceReset_concat]
  cases e.resets n with
  | true => simp
  | false => simp [recorded]

/-- **The identities of a page after a run of edits** are those given to it from its last reset on. -/
theorem keys_after (es : List Edit) (n : ℤ) :
    ((after es).usages n).keys = distinct ((recorded n es).map Usage.identity) := by
  induction es using List.reverseRecOn with
  | nil => rfl
  | append_singleton es e ih =>
    rw [after_concat, keys_run, ih, recorded_concat, List.map_append]
    cases e.resets n with
    | true => rfl
    | false => exact distinct_distinct_append _ _

open Classical in
theorem unused_eq (s : UsageStore) (entities : List EntityId) : s.unused entities =
    entities.filter fun e => ¬∃ n, ∃ u ∈ (s.usages n).toList, u.entity = e := by
  refine List.filter_congr fun e _ => ?_
  have huses : s.uses e = decide (∃ n, ∃ u ∈ (s.usages n).toList, u.entity = e) := by
    rw [Bool.eq_iff_iff, uses_iff, decide_eq_true_iff]
  rw [huses, ← decide_not]

open Classical in
/-- **The store maps pages to ordered sets of usages.** After any edits a page lists the identities given to it from
its last reset on, each where it was first seen. A further edit succeeds, leaves other pages alone and hands back
just what it gives up, so that an identity leaves a page only by being handed back. The unused entities are those
that no page records a usage of, in the order asked for. -/
theorem edits_recorded (es : List Edit) :
    (∀ n, ((after es).usages n).toList.map Usage.identity = distinct ((recorded n es).map Usage.identity)) ∧
    (∀ (e : Edit) n, e.page ≠ n → (after (es ++ [e])).usages n = (after es).usages n) ∧
    (∀ e : Edit, (e.run (after es)).2 = .ok (e.handedBack (after es))) ∧
    (∀ (e : Edit) n, ∀ i ∈ ((after es).usages n).toList.map Usage.identity,
      i ∉ ((after (es ++ [e])).usages n).toList.map Usage.identity ↔
        e.page = n ∧ i ∈ (e.handedBack (after es)).map Usage.identity) ∧
    ∀ entities, (after es).unused entities =
      entities.filter fun e => ¬∃ n, ∃ u ∈ ((after es).usages n).toList, u.entity = e := by
  refine ⟨keys_after es, fun e n hpage => ?_, result_run (after es), fun e n i hi => ?_, unused_eq (after es)⟩
  · rw [after_concat]
    exact usages_run_of_ne (after es) hpage
  · rw [after_concat]
    exact notMem_keys_run_iff hi

end PageInvalidation.UsageStore
