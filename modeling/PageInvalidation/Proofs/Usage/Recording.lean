import PageInvalidation.Proofs.Usage.Edits
import PageInvalidation.Usage.Recorder

/-! # Recording, keeping and storing usages

Usages are collected by a recorder while a page is rendered, kept in its record and stored with the usages of other
pages. Whether they come one by one, in several lists or in a list that replaces what was there, the same identities
are listed in the same order (`UsageRecorder.recorded_alike`): all but replacing add to a set that keeps the first usage
of each identity, and the set that replaces has its identities in the order of this one (`Keyed.keys_ofListLast`). -/

namespace PageInvalidation

variable {n : ℕ}

/-! ### Records of entries -/

namespace PageUsages

theorem addEach_usages : ∀ (us : List Usage) (p : PageUsages),
    p.addEach ((us.map .usage).map .ok) = (p.addAll us, .ok ())
  | [], _ => rfl
  | u :: us, p => addEach_usages us (p.add u)

theorem ofEntries_usages (n : ℕ) (us : List Usage) : ofEntries n (us.map .usage) = .ok (.ofList n us) := by
  rw [ofEntries, addEach_usages]
  rfl

end PageUsages

/-! ### Recorders -/

namespace UsageRecorder

theorem foldl_add : ∀ (us : List Usage) (r : UsageRecorder), us.foldl add r = ⟨r.usages.insertAll us⟩
  | [], _ => rfl
  | u :: us, r => foldl_add us (r.add u)

theorem toPage_int (r : UsageRecorder) (n : ℕ) : r.toPage (.int n) = .ok ⟨n, r.usages⟩ := by
  have hid : PageUsages.pageIdOfInt n = .ok n := PageUsages.pageIdOfInt_eq_ok.mpr rfl
  have hpage : PageUsages.ofList n r.toList = ⟨n, r.usages⟩ := PageUsages.ofList_toList ⟨n, r.usages⟩
  rw [toPage, PageUsages.ofValues, PageUsages.pageIdOfValue, hid, ← hpage, ← PageUsages.ofEntries_usages]
  rfl

end UsageRecorder

/-! ### The store -/

namespace UsageStore

theorem usages_after_adds (n : ℤ) (chunks : List (List Usage)) :
    (after (chunks.map (.add n))).usages n = Keyed.ofList chunks.flatten := by
  induction chunks using List.reverseRecOn with
  | nil => rfl
  | append_singleton chunks us ih =>
    rw [List.map_append, List.map_singleton, after_concat, run_add, usages_add, if_pos rfl, ih, List.flatten_append,
      List.flatten_singleton, Keyed.ofList, Keyed.ofList, Keyed.insertAll_append]

theorem usages_run_replace (s : UsageStore) (n : ℤ) (us : List Usage) :
    ((Edit.replace n us).run s).1.usages n = Keyed.ofListLast us := by
  rw [run_replace, usages_replace, if_pos rfl]

theorem handedBack_replace_self (s : UsageStore) (n : ℤ) :
    (Edit.replace n (s.usages n).toList).handedBack s = [] := by
  refine List.filter_eq_nil_iff.mpr fun u hu => ?_
  simpa using ⟨u, hu, rfl⟩

theorem usages_replace_self (s : UsageStore) (n m : ℤ) :
    ((Edit.replace n (s.usages n).toList).run s).1.usages m = s.usages m := by
  by_cases hpage : n = m
  · rw [← hpage, usages_run_replace, Keyed.ofListLast_toList]
  · exact usages_run_of_ne s hpage

end UsageStore

/-! ### Agreement -/

namespace UsageRecorder

open UsageStore (after Edit)

/-- **Usages are recorded, kept and stored alike.** A recorder lists the first usage of each identity. The record that
it makes for a page, the record that the usages are added to in any lists and the store that they are added to in these
list the same usages; replacing lists the same identities. So what was recorded is stored just so, whether it is added to
a fresh store or replaces what any store has for the page; and usages of a page that are replaced by themselves stay,
with all that is stored. -/
theorem recorded_alike (n : ℕ) (chunks : List (List Usage)) :
    let us := chunks.flatten
    let r := us.foldl add empty
    r.toList.map Usage.identity = distinct (us.map Usage.identity) ∧
      (∃ p, r.toPage (.int n) = .ok p ∧ p.pageId = n ∧ p.toList = r.toList) ∧
      (chunks.foldl PageUsages.addAll (.empty n)).toList = r.toList ∧
      ((after (chunks.map (.add n))).usages n).toList = r.toList ∧
      (∀ s, (((Edit.replace n us).run s).1.usages n).toList.map Usage.identity = r.toList.map Usage.identity) ∧
      ((after [.add n r.toList]).usages n).toList = r.toList ∧
      (∀ s, (((Edit.replace n r.toList).run s).1.usages n).toList = r.toList) ∧
      ∀ s : UsageStore, ((Edit.replace n (s.usages n).toList).run s).2 = .ok [] ∧
        ∀ m, ((Edit.replace n (s.usages n).toList).run s).1.usages m = s.usages m := by
  intro us r
  have hr : r.usages = Keyed.ofList us := congrArg usages (foldl_add us empty)
  have hidentities : r.toList.map Usage.identity = distinct (us.map Usage.identity) := by
    have hkeys : (Keyed.ofList us : UsageSet).keys = distinct (us.map Usage.identity) :=
      (Keyed.empty : UsageSet).keys_insertAll us
    rwa [← hr] at hkeys
  have hkept : (chunks.foldl PageUsages.addAll (.empty n)).usages = r.usages :=
    (congrArg PageUsages.usages (PageUsages.foldl_addAll chunks (.empty n))).trans hr.symm
  have hadded : (after (chunks.map (.add n))).usages n = r.usages :=
    (UsageStore.usages_after_adds n chunks).trans hr.symm
  refine ⟨hidentities, ⟨⟨n, r.usages⟩, r.toPage_int n, rfl, rfl⟩, congrArg Keyed.toList hkept,
    congrArg Keyed.toList hadded, fun s => ?_, ?_, fun s => ?_, fun s => ⟨?_, s.usages_replace_self n⟩⟩
  · rw [hidentities, UsageStore.usages_run_replace]
    exact Keyed.keys_ofListLast us
  · have hstored := UsageStore.usages_after_adds n [r.toList]
    rw [List.flatten_singleton, toList, Keyed.ofList_toList] at hstored
    exact congrArg Keyed.toList hstored
  · rw [UsageStore.usages_run_replace]
    exact Keyed.toList_ofListLast_of_nodup r.usages.nodup
  · rw [UsageStore.result_run, UsageStore.handedBack_replace_self]

end UsageRecorder

end PageInvalidation
