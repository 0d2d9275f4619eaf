import PageInvalidation.Keyed
import Mathlib.Data.List.Induction
import Mathlib.Data.List.Nodup
import Mathlib.Data.Set.Function

/-! # What is in a keyed list

Membership after each operation, in two forms: that of keys, which always add up, and that of values,
which do if the key tells the values apart.

* `Keyed.mem_keys_insertAll`, `Keyed.keys_insertAll`, `Keyed.mem_insertAll`: adding a list of values.
* `Keyed.mem_put`: putting a value in the place of the one with its key.
* `Keyed.find?_eq_some`, `Keyed.find?_ofList`, `Keyed.find?_ofListLast`: looking up a key finds the one value with it,
  the first that was added or the last that was put. -/

namespace PageInvalidation

variable {α κ : Type}

/-! ### Plain lists -/

section Lists

theorem pairwise_mergeSort_le (f : α → ℤ) (l : List α) :
    (l.mergeSort fun a b => f a ≤ f b).Pairwise fun a b => f a ≤ f b := by
  have htrans : ∀ a b c : α, decide (f a ≤ f b) → decide (f b ≤ f c) → decide (f a ≤ f c) := by
    simpa using fun a b c => Int.le_trans
  have htotal : ∀ a b : α, decide (f a ≤ f b) || decide (f b ≤ f a) := by
    simpa using fun a b => Int.le_total (f a) (f b)
  exact (List.pairwise_mergeSort htrans htotal l).imp of_decide_eq_true

variable (key : α → κ)

theorem key_notMem_of_nodup {l acc : List α} {a : α} (h : ((acc ++ a :: l).map key).Nodup) :
    key a ∉ acc.map key := by
  rw [List.map_append, List.nodup_append] at h
  exact fun hm => h.2.2 _ hm _ (by simp) rfl

variable [DecidableEq κ]

theorem putBy_of_notMem {a : α} : ∀ {l : List α}, key a ∉ l.map key → putBy key l a = l ++ [a]
  | [], _ => rfl
  | b :: l, h => by
    rw [List.map_cons, List.mem_cons, not_or] at h
    rw [putBy, if_neg (Ne.symm h.1), putBy_of_notMem h.2, List.cons_append]

theorem putBy_append_cons {a b : α} {l' : List α} (hb : key b = key a) : ∀ {l : List α}, key a ∉ l.map key →
    putBy key (l ++ b :: l') a = l ++ a :: l'
  | [], _ => if_pos hb
  | c :: l, h => by
    rw [List.map_cons, List.mem_cons, not_or] at h
    rw [List.cons_append, putBy, if_neg (Ne.symm h.1), putBy_append_cons hb h.2, List.cons_append]

theorem foldl_putBy_of_nodup : ∀ {l acc : List α}, ((acc ++ l).map key).Nodup →
    l.foldl (putBy key) acc = acc ++ l
  | [], acc, _ => by simp
  | a :: l, acc, h => by
    rw [List.foldl_cons, putBy_of_notMem key (key_notMem_of_nodup key h),
      foldl_putBy_of_nodup (by simpa using h)]
    simp

theorem mem_map_foldl_insertBy (k : κ) : ∀ (l acc : List α),
    k ∈ (l.foldl (insertBy key) acc).map key ↔ k ∈ acc.map key ∨ k ∈ l.map key
  | [], acc => by simp
  | a :: l, acc => by
    rw [List.foldl_cons, mem_map_foldl_insertBy k l, map_insertBy, List.map_cons, List.mem_cons]
    split
    · rename_i h
      constructor
      · rintro (hk | hk)
        · exact .inl hk
        · exact .inr (.inr hk)
      · rintro (hk | rfl | hk)
        · exact .inl hk
        · exact .inl h
        · exact .inr hk
    · simp only [List.mem_append, List.mem_singleton, or_assoc]

theorem foldl_insertBy_of_nodup : ∀ {l acc : List α}, ((acc ++ l).map key).Nodup →
    l.foldl (insertBy key) acc = acc ++ l
  | [], acc, _ => by simp
  | a :: l, acc, h => by
    rw [List.foldl_cons, insertBy, if_neg (key_notMem_of_nodup key h),
      foldl_insertBy_of_nodup (by simpa using h)]
    simp

theorem map_foldl_insertBy : ∀ l acc : List α,
    (l.foldl (insertBy key) acc).map key = (l.map key).foldl (insertBy id) (acc.map key)
  | [], _ => rfl
  | a :: l, acc => by
    have hstep : (insertBy key acc a).map key = insertBy id (acc.map key) (key a) := by
      rw [map_insertBy, insertBy, List.map_id, id]
    rw [List.foldl_cons, map_foldl_insertBy l, hstep, List.map_cons, List.foldl_cons]

theorem mem_of_mem_foldl_insertBy {b : α} : ∀ {l acc : List α},
    b ∈ l.foldl (insertBy key) acc → b ∈ acc ∨ b ∈ l
  | [], _, h => .inl h
  | a :: l, acc, h => by
    rcases mem_of_mem_foldl_insertBy (l := l) h with h | h
    · unfold insertBy at h
      split at h
      · exact .inl h
      · rcases List.mem_append.mp h with h | h
        · exact .inl h
        · exact .inr (List.mem_singleton.mp h ▸ List.mem_cons_self)
    · exact .inr (List.mem_cons_of_mem a h)

/-- Where the key tells values apart, the first of each key is each value once. -/
theorem foldl_insertBy_of_injOn [DecidableEq α] : ∀ {l acc : List α}, Set.InjOn key {a | a ∈ acc ∨ a ∈ l} →
    l.foldl (insertBy key) acc = l.foldl (insertBy id) acc
  | [], _, _ => rfl
  | a :: l, acc, h => by
    have hmem : key a ∈ acc.map key ↔ id a ∈ acc.map id := by
      rw [List.map_id, List.mem_map]
      constructor
      · rintro ⟨b, hb, hba⟩
        exact h (.inl hb) (.inr List.mem_cons_self) hba ▸ hb
      · exact fun ha => ⟨a, ha, rfl⟩
    have hstep : insertBy key acc a = insertBy id acc a := by simp only [insertBy, hmem]
    rw [List.foldl_cons, List.foldl_cons, ← hstep]
    refine foldl_insertBy_of_injOn (h.mono ?_)
    rintro b (hb | hb)
    · refine (mem_of_mem_foldl_insertBy key (l := [a]) hb).imp id fun hb => ?_
      exact List.mem_singleton.mp hb ▸ List.mem_cons_self
    · exact .inr (List.mem_cons_of_mem a hb)

theorem mem_putBy {a b : α} : ∀ {l : List α}, (l.map key).Nodup →
    (b ∈ putBy key l a ↔ b = a ∨ b ∈ l ∧ key b ≠ key a)
  | [], _ => by simp [putBy]
  | c :: l, h => by
    rw [List.map_cons, List.nodup_cons] at h
    unfold putBy
    split
    · rename_i hc
      have hl : b ∈ l → key b ≠ key a := fun hb he => h.1 (hc ▸ he ▸ List.mem_map_of_mem hb)
      simp only [List.mem_cons]
      constructor
      · rintro (rfl | hb)
        · exact .inl rfl
        · exact .inr ⟨.inr hb, hl hb⟩
      · rintro (rfl | ⟨rfl | hb, hne⟩)
        · exact .inl rfl
        · exact absurd hc hne
        · exact .inr hb
    · rename_i hc
      rw [List.mem_cons, mem_putBy h.2, List.mem_cons]
      constructor
      · rintro (rfl | rfl | ⟨hb, hne⟩)
        · exact .inr ⟨.inl rfl, hc⟩
        · exact .inl rfl
        · exact .inr ⟨.inr hb, hne⟩
      · rintro (rfl | ⟨rfl | hb, hne⟩)
        · exact .inr (.inl rfl)
        · exact .inl rfl
        · exact .inr (.inr ⟨hb, hne⟩)

theorem nodup_map_foldl_putBy : ∀ {l acc : List α}, (acc.map key).Nodup →
    ((l.foldl (putBy key) acc).map key).Nodup
  | [], _, h => h
  | a :: l, acc, h => by
    rw [List.foldl_cons]
    exact nodup_map_foldl_putBy (nodup_putBy key a h)

theorem map_putBy (a : α) : ∀ l : List α,
    (putBy key l a).map key = if key a ∈ l.map key then l.map key else l.map key ++ [key a]
  | [] => rfl
  | b :: l => by
    unfold putBy
    split
    · rename_i h
      simp [h]
    · rename_i h
      have hne : key a ≠ key b := fun heq => h heq.symm
      rw [List.map_cons, map_putBy a l]
      by_cases hmem : key a ∈ l.map key <;> simp [hmem, hne]

theorem mem_of_mem_putBy {a b : α} : ∀ {l : List α}, b ∈ putBy key l a → b = a ∨ b ∈ l
  | [], h => .inl (List.mem_singleton.mp h)
  | c :: l, h => by
    unfold putBy at h
    split at h
    · rcases List.mem_cons.mp h with h | h
      · exact .inl h
      · exact .inr (List.mem_cons_of_mem c h)
    · rcases List.mem_cons.mp h with rfl | h
      · exact .inr List.mem_cons_self
      · exact (mem_of_mem_putBy h).imp id (List.mem_cons_of_mem c)

theorem mem_of_mem_foldl_putBy {b : α} : ∀ {l acc : List α},
    b ∈ l.foldl (putBy key) acc → b ∈ acc ∨ b ∈ l
  | [], _, h => .inl h
  | a :: l, acc, h => by
    rcases mem_of_mem_foldl_putBy (l := l) h with h | h
    · rcases mem_of_mem_putBy key h with rfl | h
      · exact .inr List.mem_cons_self
      · exact .inl h
    · exact .inr (List.mem_cons_of_mem a h)

theorem mem_of_mem_distinctBy {l : List α} {a : α} (h : a ∈ distinctBy key l) : a ∈ l := by
  rcases mem_of_mem_foldl_putBy key h with h | h
  · cases h
  · exact h

theorem distinctBy_of_nodup {l : List α} (h : (l.map key).Nodup) : distinctBy key l = l := by
  rw [distinctBy, foldl_putBy_of_nodup key (by simpa using h), List.nil_append]

theorem length_putBy_of_mem {a : α} : ∀ {l : List α}, key a ∈ l.map key →
    (putBy key l a).length = l.length
  | b :: l, h => by
    unfold putBy
    split
    · rfl
    · rename_i hb
      have hl : key a ∈ l.map key := (List.mem_cons.mp h).resolve_left (Ne.symm hb)
      rw [List.length_cons, length_putBy_of_mem hl, List.length_cons]

theorem length_foldl_putBy_le : ∀ (l acc : List α),
    (l.foldl (putBy key) acc).length ≤ acc.length + l.length
  | [], acc => by simp
  | a :: l, acc => by
    have ih := length_foldl_putBy_le l (putBy key acc a)
    have hput : (putBy key acc a).length ≤ acc.length + 1 := by
      by_cases h : key a ∈ acc.map key
      · rw [length_putBy_of_mem key h]
        omega
      · rw [putBy_of_notMem key h]
        simp
    rw [List.foldl_cons, List.length_cons]
    omega

theorem nodup_of_length_foldl_putBy : ∀ {l acc : List α}, (acc.map key).Nodup →
    (l.foldl (putBy key) acc).length = acc.length + l.length → ((acc ++ l).map key).Nodup
  | [], acc, hacc, _ => by simpa using hacc
  | a :: l, acc, hacc, h => by
    have hle := length_foldl_putBy_le key l (putBy key acc a)
    rw [List.foldl_cons, List.length_cons] at h
    have ha : key a ∉ acc.map key := by
      intro ha
      rw [length_putBy_of_mem key ha] at hle
      omega
    have hput := putBy_of_notMem key ha
    have hlength : (putBy key acc a).length = acc.length + 1 := by rw [hput]; simp
    have ih := nodup_of_length_foldl_putBy (nodup_putBy key a hacc) (h.trans (by omega))
    rwa [hput, List.append_assoc, List.singleton_append] at ih

theorem length_distinctBy_eq_iff {l : List α} :
    (distinctBy key l).length = l.length ↔ (l.map key).Nodup := by
  constructor
  · intro h
    have hl : (([] ++ l).map key).Nodup :=
      nodup_of_length_foldl_putBy key List.nodup_nil (h.trans (Nat.zero_add _).symm)
    rwa [List.nil_append] at hl
  · intro h
    rw [distinctBy_of_nodup key h]

theorem nodup_map_distinctBy (l : List α) : ((distinctBy key l).map key).Nodup :=
  nodup_map_foldl_putBy key List.nodup_nil

theorem filter_key_of_nodup (k : κ) : ∀ {l : List α}, (l.map key).Nodup →
    l.filter (fun a => key a = k) = (findBy key k l).toList
  | [], _ => rfl
  | a :: l, h => by
    rw [List.map_cons, List.nodup_cons] at h
    by_cases hk : key a = k
    · have hl : l.filter (fun b => decide (key b = k)) = [] := by
        refine List.filter_eq_nil_iff.mpr fun b hb hbk => h.1 ?_
        rw [hk, ← of_decide_eq_true hbk]
        exact List.mem_map_of_mem hb
      simp [findBy, hk, hl]
    · have ih := filter_key_of_nodup k h.2
      simpa [findBy, hk] using ih

end Lists

/-! ### Elements once each -/

section Distinct

variable [DecidableEq κ]

theorem mem_insertBy {l : List κ} {a b : κ} : b ∈ insertBy id l a ↔ b ∈ l ∨ b = a := by
  have h := mem_map_foldl_insertBy id b [a] l
  simpa using h

theorem mem_distinct {a : κ} {l : List κ} : a ∈ distinct l ↔ a ∈ l := by
  have h := mem_map_foldl_insertBy id a l []
  simpa [distinct] using h

theorem nodup_distinct (l : List κ) : (distinct l).Nodup := by
  have hfold : ∀ l acc : List κ, acc.Nodup → (l.foldl (insertBy id) acc).Nodup := by
    intro l
    induction l with
    | nil => exact fun acc h => h
    | cons a l ih =>
      intro acc h
      have hstep := nodup_insertBy id (l := acc) (by simpa using h) a
      exact ih _ (by simpa using hstep)
  exact hfold l [] List.nodup_nil

theorem distinct_of_nodup {l : List κ} (h : l.Nodup) : distinct l = l := by
  rw [distinct, foldl_insertBy_of_nodup id (by simpa using h), List.nil_append]

theorem distinct_append (l l' : List κ) : distinct (l ++ l') = l'.foldl (insertBy id) (distinct l) :=
  List.foldl_append

theorem distinct_distinct_append (l l' : List κ) : distinct (distinct l ++ l') = distinct (l ++ l') := by
  rw [distinct_append, distinct_append, distinct_of_nodup (nodup_distinct l)]

end Distinct

/-! ### Keyed lists -/

namespace Keyed

variable {key : α → κ} (m : Keyed key)

@[simp] theorem toList_empty : (empty : Keyed key).toList = [] := rfl

theorem eq_of_toList_eq {m m' : Keyed key} (h : m.toList = m'.toList) : m = m' := by
  cases m
  cases m'
  cases h
  rfl

theorem isEmpty_iff : m.isEmpty = true ↔ m.toList = [] := List.isEmpty_iff

theorem eq_empty_of_isEmpty {m : Keyed key} (h : m.isEmpty = true) : m = empty :=
  eq_of_toList_eq (m.isEmpty_iff.mp h)

theorem mem_keys {k : κ} : k ∈ m.keys ↔ ∃ a ∈ m.toList, key a = k := List.mem_map

theorem nodup_toList : m.toList.Nodup := m.nodup.of_map

theorem eq_of_key_eq {a b : α} (ha : a ∈ m.toList) (hb : b ∈ m.toList) (h : key a = key b) : a = b :=
  List.inj_on_of_nodup_map m.nodup ha hb h

theorem injOn : Set.InjOn key {a | a ∈ m.toList} := fun _ ha _ hb h => m.eq_of_key_eq ha hb h

variable [DecidableEq κ]

theorem distinct_keys : distinct m.keys = m.keys := distinct_of_nodup m.nodup

/-! #### Adding -/

theorem toList_insertAll (l : List α) : ∀ m : Keyed key,
    (m.insertAll l).toList = l.foldl (insertBy key) m.toList := by
  induction l with
  | nil => exact fun m => rfl
  | cons a l ih => exact fun m => ih (m.insert a)

theorem insertAll_append (l l' : List α) : m.insertAll (l ++ l') = (m.insertAll l).insertAll l' :=
  List.foldl_append

/-- **The keys after adding a list** are the ones before and those of the list. -/
theorem mem_keys_insertAll {l : List α} {k : κ} :
    k ∈ (m.insertAll l).keys ↔ k ∈ m.keys ∨ k ∈ l.map key := by
  unfold keys
  rw [toList_insertAll, mem_map_foldl_insertBy]

/-- **The keys after adding a list, in order**: each one where it was first seen. -/
theorem keys_insertAll (l : List α) : (m.insertAll l).keys = distinct (m.keys ++ l.map key) := by
  rw [distinct_append, distinct_keys, keys, keys, toList_insertAll, map_foldl_insertBy]

theorem toList_ofList_of_nodup {l : List α} (h : (l.map key).Nodup) : (ofList l : Keyed key).toList = l := by
  rw [ofList, toList_insertAll, toList_empty, foldl_insertBy_of_nodup key (by simpa using h), List.nil_append]

theorem ofList_toList : ofList m.toList = m := eq_of_toList_eq (toList_ofList_of_nodup m.nodup)

theorem mem_of_mem_insertAll {l : List α} {a : α} (h : a ∈ (m.insertAll l).toList) :
    a ∈ m.toList ∨ a ∈ l := by
  rw [toList_insertAll] at h
  exact mem_of_mem_foldl_insertBy key h

/-- **The values after adding a list**, if the key tells them apart. -/
theorem mem_insertAll {l : List α} {a : α} (h : Set.InjOn key {b | b ∈ m.toList ∨ b ∈ l}) :
    a ∈ (m.insertAll l).toList ↔ a ∈ m.toList ∨ a ∈ l := by
  refine ⟨m.mem_of_mem_insertAll, fun ha => ?_⟩
  have hk : key a ∈ (m.insertAll l).keys :=
    m.mem_keys_insertAll.mpr (ha.imp List.mem_map_of_mem List.mem_map_of_mem)
  obtain ⟨b, hb, hba⟩ := (m.insertAll l).mem_keys.mp hk
  rwa [h (m.mem_of_mem_insertAll hb) ha hba] at hb

theorem mem_ofList {l : List α} {a : α} (h : Set.InjOn key {b | b ∈ l}) :
    a ∈ (ofList l : Keyed key).toList ↔ a ∈ l := by
  have hm := mem_insertAll (empty : Keyed key) (l := l) (a := a) (by simpa using h)
  rwa [toList_empty, or_iff_right List.not_mem_nil] at hm

/-- **The values of a list** are each of them once, if the key tells them apart. -/
theorem toList_ofList_of_injOn [DecidableEq α] {l : List α} (h : Set.InjOn key {a | a ∈ l}) :
    (ofList l : Keyed key).toList = distinct l := by
  rw [ofList, toList_insertAll, toList_empty, foldl_insertBy_of_injOn key (by simpa using h)]
  rfl

/-! #### Putting -/

theorem mem_put {a b : α} : b ∈ (m.put a).toList ↔ b = a ∨ b ∈ m.toList ∧ key b ≠ key a :=
  mem_putBy key m.nodup

theorem keys_put (a : α) : (m.put a).keys = if key a ∈ m.keys then m.keys else m.keys ++ [key a] :=
  map_putBy key a m.toList

theorem mem_keys_put {a : α} {k : κ} : k ∈ (m.put a).keys ↔ k = key a ∨ k ∈ m.keys :=
  mem_map_putBy key a k m.toList

theorem toList_ofListLast_of_nodup {l : List α} (h : (l.map key).Nodup) :
    (ofListLast l : Keyed key).toList = l := by
  have hl : ∀ (l : List α) (m : Keyed key),
      (l.foldl put m).toList = l.foldl (putBy key) m.toList := by
    intro l
    induction l with
    | nil => exact fun m => rfl
    | cons a l ih => exact fun m => ih (m.put a)
  rw [ofListLast, hl, toList_empty, foldl_putBy_of_nodup key (by simpa using h), List.nil_append]

theorem ofListLast_concat (l : List α) (a : α) : (ofListLast (l ++ [a]) : Keyed key) = (ofListLast l).put a :=
  List.foldl_concat _ _ _ _

theorem ofListLast_toList : ofListLast m.toList = m := eq_of_toList_eq (toList_ofListLast_of_nodup m.nodup)

theorem contains_iff {m : Keyed key} {k : κ} : m.contains k = true ↔ k ∈ m.keys := decide_eq_true_iff

/-- **The keys of a list that is put**: each one where it was first seen. -/
theorem keys_ofListLast (l : List α) : (ofListLast l : Keyed key).keys = distinct (l.map key) := by
  induction l using List.reverseRecOn with
  | nil => rfl
  | append_singleton l a ih =>
    rw [ofListLast_concat, keys_put, ih, List.map_append, distinct_append, List.map_singleton, List.foldl_cons,
      List.foldl_nil, insertBy, List.map_id, id]

/-! #### Looking up -/

/-- **A key finds the value with it.** -/
theorem find?_eq_some {k : κ} {a : α} : m.find? k = some a ↔ a ∈ m.toList ∧ key a = k := by
  unfold find? findBy
  constructor
  · intro h
    exact ⟨List.mem_of_find?_eq_some h, by simpa using List.find?_some h⟩
  · rintro ⟨ha, rfl⟩
    obtain ⟨b, hb⟩ : ∃ b, m.toList.find? (fun b => decide (key b = key a)) = some b :=
      Option.isSome_iff_exists.mp (List.find?_isSome.mpr ⟨a, ha, by simp⟩)
    rw [hb, m.eq_of_key_eq (List.mem_of_find?_eq_some hb) ha (by simpa using List.find?_some hb)]

theorem find?_eq_none {k : κ} : m.find? k = none ↔ k ∉ m.keys := by
  unfold find? findBy keys
  simp

theorem find?_insert (a : α) (k : κ) :
    (m.insert a).find? k = (m.find? k).or (if key a = k then some a else none) := by
  have hlist : (m.insert a).toList = if key a ∈ m.keys then m.toList else m.toList ++ [a] := rfl
  rw [find?, findBy, hlist]
  split
  · rename_i hmem
    split
    · rename_i hk
      obtain ⟨b, hb⟩ : ∃ b, m.find? k = some b :=
        Option.ne_none_iff_exists'.mp fun hnone => m.find?_eq_none.mp hnone (hk ▸ hmem)
      rw [hb, Option.some_or]
      exact hb
    · rw [Option.or_none]
      rfl
  · rw [List.find?_append, List.find?_singleton]
    simp [find?, findBy]

/-- **A key finds the first value that was added with it.** -/
theorem find?_ofList (k : κ) (l : List α) : (ofList l : Keyed key).find? k = l.find? fun a => key a = k := by
  induction l using List.reverseRecOn with
  | nil => rfl
  | append_singleton l a ih =>
    have hstep : (ofList (l ++ [a]) : Keyed key) = (ofList l).insert a := by simp [ofList, insertAll]
    rw [hstep, find?_insert, ih, List.find?_append, List.find?_singleton]
    simp

theorem find?_put (a : α) (k : κ) : (m.put a).find? k = if key a = k then some a else m.find? k := by
  refine Option.ext fun b => ?_
  rw [find?_eq_some, mem_put]
  split
  · rename_i hk
    simp only [Option.some.injEq, ← hk]
    exact ⟨fun h => h.1.elim Eq.symm fun hb => absurd h.2 hb.2, fun h => h ▸ ⟨.inl rfl, rfl⟩⟩
  · rename_i hk
    rw [find?_eq_some]
    constructor
    · rintro ⟨rfl | ⟨hb, -⟩, rfl⟩
      · exact absurd rfl hk
      · exact ⟨hb, rfl⟩
    · rintro ⟨hb, rfl⟩
      exact ⟨.inr ⟨hb, fun h => hk h.symm⟩, rfl⟩

theorem find?_erase (k k' : κ) : (m.erase k).find? k' = if k = k' then none else m.find? k' := by
  refine Option.ext fun b => ?_
  have hmem : b ∈ (m.erase k).toList ↔ b ∈ m.toList ∧ key b ≠ k := by simp [erase, eraseBy]
  rw [find?_eq_some, hmem]
  split
  · rename_i hk
    exact ⟨fun h => absurd (h.2.trans hk.symm) h.1.2, nofun⟩
  · rename_i hk
    rw [find?_eq_some]
    exact ⟨fun h => ⟨h.1.1, h.2⟩, fun h => ⟨⟨h.1, fun hb => hk (hb.symm.trans h.2)⟩, h.2⟩⟩

/-- **A key finds the last value that was put under it.** -/
theorem find?_ofListLast (k : κ) : ∀ l : List α,
    (ofListLast l : Keyed key).find? k = l.reverse.find? fun a => key a = k := by
  intro l
  induction l using List.reverseRecOn with
  | nil => rfl
  | append_singleton l a ih =>
    rw [ofListLast_concat, find?_put, List.reverse_concat, List.find?_cons, ih]
    by_cases hk : key a = k <;> simp [hk]

end Keyed

end PageInvalidation
