import Mathlib.Data.List.Perm.Subperm
import PageInvalidation.Proofs.Affected.Merging
import PageInvalidation.Proofs.Affected.Recorded
import PageInvalidation.Proofs.Affected.Titles

/-! # Which pages a change affects

With usages and titles in memory a finder gives one result whatever is in the journal
(`Finder.affectedBy_gives`). The stages are put together in `Finder.holds_candidatesIn`, before pages are
found, and in `Finder.affected_exactly`: what is returned for each page, and for which pages. -/

namespace PageInvalidation.Finder

open PageUsages (Holds Proper)

variable {σ : Type} [Journalled σ] {store : UsageStore} {titles : TitleIndex} {f : Finder}
  {c : EntityChange} {touched : List AspectKey} {ps : List PageUsages} {p : PageUsages} {u : Usage}
  {k : AspectKey} {n : ℕ}

/-! ### Results -/

/-- The page with a number, if there is one, with titles in memory. -/
def foundIn (titles : TitleIndex) (n : ℕ) : Except Fault (Option PageRef) :=
  tryCatch (((titles.pageById n).mapError .title).map some) fun fault =>
    match fault with
    | .title (.notFound _) => .ok none
    | _ => .error fault

/-- Whether a page stays, with titles in memory. -/
def keepsIn (f : Finder) (titles : TitleIndex) (n : ℕ) : Except Fault Bool := do
  let found ← foundIn titles n
  return found.any fun page => !(f.checkExistence && !page.doesExist)

/-- The records of pages that stay, with titles in memory. -/
def keptIn (f : Finder) (titles : TitleIndex) : List PageUsages → Except Fault (List PageUsages)
  | [] => .ok []
  | p :: rest => do
    let keep ← f.keepsIn titles p.pageId
    let others ← keptIn f titles rest
    return if keep then p :: others else others

/-- The records of the pages that a change affects, found or not, with usages and titles in memory. -/
def candidatesIn (f : Finder) (store : UsageStore) (titles : TitleIndex) (c : EntityChange) :
    Except Fault (List PageUsages) := do
  let touched ← f.changedAspects c
  let used ← (store.pagesUsing [c.entity] (lookupKeys touched)).mapError .usage
  let pages := narrowed c.entity touched used
  if c.isItem && AspectKey.bare .title ∈ touched then
    let virtual ← LinkedTitles.virtualIn titles f.site c LinkedTitles.defaultKeys
    return mergeAll [pages, virtual.toList]
  else return pages

/-- The records of the pages that a change affects, with usages and titles in memory. -/
def affectedIn (f : Finder) (store : UsageStore) (titles : TitleIndex) (c : EntityChange) :
    Except Fault (List PageUsages) := do
  let pages ← f.keptIn titles (← f.candidatesIn store titles c)
  let records : LinkedTitles.Records := Keyed.ofListLast pages
  return records.toList

theorem candidates_gives : (f.candidates (Sources.ofMemory store titles) c : Act σ _).Gives
    (f.candidatesIn store titles c) := by
  refine (Act.gives_ofExcept_id _).bind fun touched _ => ?_
  refine (Act.gives_ofExcept .usage _).bind fun used _ => ?_
  dsimp only
  split
  · exact (LinkedTitles.ofChange_gives c LinkedTitles.defaultKeys).bind fun _ _ => Act.gives_pure _
  · exact Act.gives_pure _

theorem keeps_gives (p : PageUsages) : (f.keeps (Sources.ofMemory store titles) p : Act σ _).Gives
    (f.keepsIn titles p.pageId) := by
  refine Act.Gives.bind (((Act.gives_ofExcept .title _).map some).tryCatch fun fault => ?_) fun found _ => ?_
  · cases fault with
    | title e =>
      cases e with
      | notFound _ => exact Act.gives_pure none
      | _ => exact Act.gives_throw _
    | _ => exact Act.gives_throw _
  · cases found with
    | none => exact (Act.gives_noteIf _ _ _).bind fun _ _ => Act.gives_pure false
    | some page =>
      dsimp only [Option.any_some]
      split
      · rename_i hout
        rw [hout]
        exact (Act.gives_noteIf _ _ _).bind fun _ _ => Act.gives_pure false
      · rename_i hout
        rw [Bool.eq_false_iff.mpr hout]
        exact Act.gives_pure true

theorem kept_gives : ∀ ps : List PageUsages,
    (f.kept (Sources.ofMemory store titles) ps : Act σ _).Gives (f.keptIn titles ps)
  | [] => Act.gives_pure []
  | p :: ps => (keeps_gives p).bind fun _ _ => (kept_gives ps).bind fun _ _ => Act.gives_pure _

theorem affectedBy_gives : (f.affectedBy (Sources.ofMemory store titles) c : Act σ _).Gives
    (f.affectedIn store titles c) :=
  candidates_gives.bind fun ps _ => (kept_gives ps).bind fun _ _ => Act.gives_pure _

/-! ### Conditions -/

/-- The page with a number is found and, where that matters, exists. -/
def Found (f : Finder) (titles : TitleIndex) (n : ℕ) : Prop :=
  ∃ page, titles.pageById n = .ok page ∧ (f.checkExistence = true → page.doesExist = true)

/-- An item's change touches the title of the own site's link, which names the page with a number. -/
def Linked (f : Finder) (titles : TitleIndex) (c : EntityChange) (touched : List AspectKey) (n : ℕ) : Prop :=
  c.isItem = true ∧ .bare .title ∈ touched ∧
    ∃ links, c.siteLinks = .ok links ∧ LinkedTitles.NamesPage titles f.site links n

/-- A change affects a page under a key: the key is reported for a recorded usage, or the page is linked. -/
def Affects (f : Finder) (store : UsageStore) (titles : TitleIndex) (c : EntityChange)
    (touched : List AspectKey) (n : ℕ) (k : AspectKey) : Prop :=
  Reported touched ((store.usages n).keysOf c.entity) k ∨
    k = .bare .siteLink ∧ f.Linked titles c touched n

/-! ### Pages that stay -/

/-- Whether the page with a number is found and, where that matters, exists. -/
def stays (f : Finder) (titles : TitleIndex) (n : ℕ) : Bool :=
  (titles.pageById n).toOption.any fun page => !(f.checkExistence && !page.doesExist)

theorem stays_iff : f.stays titles n = true ↔ f.Found titles n := by
  unfold stays Found
  cases titles.pageById n with
  | error e => simp [Except.toOption]
  | ok page => cases f.checkExistence <;> simp [Except.toOption]

theorem keepsIn_of_tells (h : titles.Tells n) : f.keepsIn titles n = .ok (f.stays titles n) := by
  unfold keepsIn foundIn stays
  rcases h with ⟨page, hpage⟩ | hshort
  · rw [hpage]
    rfl
  · cases hpage : titles.pageById n with
    | ok page => rfl
    | error e =>
      obtain rfl := (TitleIndex.eq_ofMissing_of_pageById hpage).trans (if_pos hshort)
      rfl

theorem keepsIn_of_not_tells (h : ¬titles.Tells n) : f.keepsIn titles n = .error (.title .numberUnwritable) := by
  obtain ⟨hunknown, hlong⟩ := not_or.mp h
  unfold keepsIn foundIn
  cases hpage : titles.pageById n with
  | ok page => exact absurd ⟨page, hpage⟩ hunknown
  | error e =>
    obtain rfl := (TitleIndex.eq_ofMissing_of_pageById hpage).trans (if_neg hlong)
    rfl

/-- **Which pages stay**: those found, if the number of each page that is not there can be told. -/
theorem keptIn_of_tells : ∀ {ps : List PageUsages}, (∀ p ∈ ps, titles.Tells p.pageId) →
    f.keptIn titles ps = .ok (ps.filter fun p => f.stays titles p.pageId)
  | [], _ => rfl
  | p :: ps, h => by
    obtain ⟨hp, hps⟩ := List.forall_mem_cons.mp h
    rw [keptIn, keepsIn_of_tells hp, keptIn_of_tells hps, List.filter_cons]
    rfl

theorem keptIn_of_not_tells : ∀ {ps : List PageUsages}, (∃ p ∈ ps, ¬titles.Tells p.pageId) →
    f.keptIn titles ps = .error (.title .numberUnwritable)
  | p :: ps, h => by
    by_cases hp : titles.Tells p.pageId
    · have hps : ∃ q ∈ ps, ¬titles.Tells q.pageId :=
        ((List.exists_mem_cons_iff _ _ _).mp h).resolve_left fun hnot => hnot hp
      rw [keptIn, keepsIn_of_tells hp, keptIn_of_not_tells hps]
      rfl
    · rw [keptIn, keepsIn_of_not_tells hp]
      rfl

theorem keptIn_eq_ok {ps qs : List PageUsages} (h : f.keptIn titles ps = .ok qs) :
    qs = ps.filter fun p => f.stays titles p.pageId := by
  by_cases htells : ∀ p ∈ ps, titles.Tells p.pageId
  · exact (Except.ok.inj ((keptIn_of_tells htells).symm.trans h)).symm
  · push Not at htells
    cases (keptIn_of_not_tells htells).symm.trans h

/-! ### The stages together -/

theorem holds_virtualIn {records : LinkedTitles.Records}
    (h : LinkedTitles.virtualIn titles f.site c LinkedTitles.defaultKeys = .ok records)
    (hitem : c.isItem = true) (htitle : .bare .title ∈ touched) :
    (∀ n u, Holds records.toList n u ↔
      u = ⟨c.entity, .bare .siteLink⟩ ∧ f.Linked titles c touched n) ∧
    ∀ p ∈ records.toList, p.toList ≠ [] := by
  obtain ⟨links, hlinks, hkeys, hrecords⟩ := LinkedTitles.virtualIn_eq_ok h
  have hmem : ∀ p ∈ records.toList, ∀ u, u ∈ p.toList ↔ u = ⟨c.entity, .bare .siteLink⟩ := by
    intro p hp u
    rw [hrecords p hp, PageUsages.mem_ofList (by simp), List.mem_singleton]
  refine ⟨fun n u => ?_, fun p hp => List.ne_nil_of_mem ((hmem p hp _).mpr rfl)⟩
  constructor
  · rintro ⟨p, hp, rfl, hu⟩
    exact ⟨(hmem p hp u).mp hu, hitem, htitle, links, hlinks, (hkeys _).mp (List.mem_map_of_mem hp)⟩
  · rintro ⟨hu, -, -, links', hlinks', hnames⟩
    cases hlinks.symm.trans hlinks'
    obtain ⟨p, hp, hid⟩ := records.mem_keys.mp ((hkeys n).mpr hnames)
    exact ⟨p, hp, hid, (hmem p hp u).mpr hu⟩

/-- **The pages that a change affects, found or not**, and under which keys. -/
theorem holds_candidatesIn (h : f.candidatesIn store titles c = .ok ps) :
    ∃ touched, f.changedAspects c = .ok touched ∧ Proper ps ∧
      ∀ n u, Holds ps n u ↔ u.entity = c.entity ∧ f.Affects store titles c touched n u.key := by
  obtain ⟨touched, htouched, h⟩ := Outcome.bind_eq_ok.mp h
  obtain ⟨used, hused, h⟩ := Outcome.bind_eq_ok.mp h
  have ht : ∀ k ∈ touched, ChangedAspects.Touchable k := fun k =>
    ChangedAspects.touchable_of_mem htouched
  have hlookup := Outcome.mapError_eq_ok.mp hused
  have hproper := proper_narrowed hlookup
  have hholds := fun n u => holds_narrowed (n := n) (u := u) ht hlookup
  refine ⟨touched, htouched, ?_⟩
  dsimp only at h
  split at h
  · -- the title is touched: virtual records are merged in
    rename_i hcond
    rw [Bool.and_eq_true, decide_eq_true_eq] at hcond
    obtain ⟨records, hvirtual, h⟩ := Outcome.bind_eq_ok.mp h
    cases h
    obtain ⟨hlinked, hne⟩ := holds_virtualIn hvirtual hcond.1 hcond.2
    have hne' : ∀ p ∈ narrowed c.entity touched used ++ records.toList, p.toList ≠ [] := by
      intro p hp
      rcases List.mem_append.mp hp with hp | hp
      · exact hproper.ne_nil p hp
      · exact hne p hp
    obtain ⟨hmerged, hboth⟩ := mergeAll_pair (fun n u hu => ((hholds n u).mp hu).1)
      (fun n u hu => congrArg Usage.entity ((hlinked n u).mp hu).1) hne'
    refine ⟨hmerged, fun n u => ?_⟩
    rw [hboth, hholds, hlinked, Affects, and_or_left]
    refine or_congr Iff.rfl ?_
    constructor
    · rintro ⟨rfl, hl⟩
      exact ⟨rfl, rfl, hl⟩
    · obtain ⟨e, k⟩ := u
      rintro ⟨rfl, rfl, hl⟩
      exact ⟨rfl, hl⟩
  · -- otherwise no page is linked
    rename_i hcond
    cases h
    refine ⟨hproper, fun n u => (hholds n u).trans (and_congr Iff.rfl (or_iff_left ?_).symm)⟩
    rintro ⟨-, hitem, htitle, -⟩
    exact hcond (by simp [hitem, htitle])

theorem affectedIn_eq_ok (h : f.affectedIn store titles c = .ok ps) :
    ∃ touched, f.changedAspects c = .ok touched ∧ Proper ps ∧ ∀ n u, Holds ps n u ↔
      u.entity = c.entity ∧ f.Affects store titles c touched n u.key ∧ f.Found titles n := by
  obtain ⟨qs, hqs, h⟩ := Outcome.bind_eq_ok.mp h
  obtain ⟨touched, htouched, hproper, hholds⟩ := holds_candidatesIn hqs
  obtain ⟨ks, hks, h⟩ := Outcome.bind_eq_ok.mp h
  obtain rfl := keptIn_eq_ok hks
  have hkept : Proper (qs.filter fun p => f.stays titles p.pageId) := hproper.filter _
  have hps : qs.filter (fun p => f.stays titles p.pageId) = ps := by
    -- the pages are distinct already, so collecting them by page changes nothing
    rw [← Except.ok.inj h]
    exact (Keyed.toList_ofListLast_of_nodup hkept.nodup).symm
  subst hps
  refine ⟨touched, htouched, hkept, fun n u => ?_⟩
  rw [← and_assoc, ← hholds]
  constructor
  · rintro ⟨p, hp, rfl, hu⟩
    obtain ⟨hp, hkeep⟩ := List.mem_filter.mp hp
    exact ⟨⟨p, hp, rfl, hu⟩, stays_iff.mp hkeep⟩
  · rintro ⟨⟨p, hp, rfl, hu⟩, hfound⟩
    exact ⟨p, List.mem_filter.mpr ⟨hp, stays_iff.mpr hfound⟩, rfl, hu⟩

theorem mem_pageId_iff_affects (hproper : Proper ps) (hholds : ∀ n u, Holds ps n u ↔
      u.entity = c.entity ∧ f.Affects store titles c touched n u.key ∧ f.Found titles n) :
    n ∈ ps.map PageUsages.pageId ↔
      (∃ k, f.Affects store titles c touched n k) ∧ f.Found titles n := by
  rw [hproper.mem_pageId_iff]
  constructor
  · rintro ⟨u, hu⟩
    obtain ⟨-, hk, hfound⟩ := (hholds n u).mp hu
    exact ⟨⟨u.key, hk⟩, hfound⟩
  · rintro ⟨⟨k, hk⟩, hfound⟩
    exact ⟨⟨c.entity, k⟩, (hholds n _).mpr ⟨rfl, hk, hfound⟩⟩

theorem length_affectedIn_le (h : f.affectedIn store titles c = .ok ps) : ps.length ≤ titles.byId.size := by
  obtain ⟨touched, -, hproper, hholds⟩ := affectedIn_eq_ok h
  have hnodup : ((ps.map PageUsages.pageId).map fun n : ℕ => (n : ℤ)).Nodup :=
    hproper.nodup.map fun _ _ => Int.ofNat.inj
  have hsubset : (ps.map PageUsages.pageId).map (fun n : ℕ => (n : ℤ)) ⊆ titles.byId.keys := by
    intro k hk
    obtain ⟨n, hn, rfl⟩ := List.mem_map.mp hk
    obtain ⟨-, page, hpage, -⟩ := (mem_pageId_iff_affects hproper hholds).mp hn
    by_contra hnot
    rw [TitleIndex.pageById, titles.byId.find?_eq_none.mpr hnot] at hpage
    cases hpage
  have hle := (List.subperm_of_subset hnodup hsubset).length_le
  rwa [List.length_map, List.length_map, Keyed.keys, List.length_map] at hle

/-! ### When a finder succeeds -/

theorem exists_candidatesIn (hpages : ∀ page ∈ store.pages.toList, 0 ≤ page.1)
    (htouched : f.changedAspects c = .ok touched)
    (hvirtual : c.isItem = true → .bare .title ∈ touched →
      ∃ records, LinkedTitles.virtualIn titles f.site c LinkedTitles.defaultKeys = .ok records) :
    ∃ qs, f.candidatesIn store titles c = .ok qs := by
  have hlookup : ∃ used, store.pagesUsing [c.entity] (lookupKeys touched) = .ok used :=
    UsageStore.exists_pagesUsing hpages
  obtain ⟨used, hused⟩ := hlookup
  by_cases hcond : (c.isItem && AspectKey.bare .title ∈ touched) = true
  · obtain ⟨hitem, htitle⟩ := Bool.and_eq_true_iff.mp hcond
    obtain ⟨records, hrecords⟩ := hvirtual hitem (of_decide_eq_true htitle)
    exact ⟨_, Outcome.bind_eq_ok.mpr ⟨touched, htouched, Outcome.bind_eq_ok.mpr
      ⟨used, Outcome.mapError_eq_ok.mpr hused,
        (if_pos hcond).trans (Outcome.bind_eq_ok.mpr ⟨records, hrecords, rfl⟩)⟩⟩⟩
  · exact ⟨_, Outcome.bind_eq_ok.mpr ⟨touched, htouched, Outcome.bind_eq_ok.mpr
      ⟨used, Outcome.mapError_eq_ok.mpr hused, if_neg hcond⟩⟩⟩

theorem mem_pageId_candidatesIn (h : f.candidatesIn store titles c = .ok ps)
    (htouched : f.changedAspects c = .ok touched) :
    n ∈ ps.map PageUsages.pageId ↔ ∃ k, f.Affects store titles c touched n k := by
  obtain ⟨touched', htouched', hproper, hholds⟩ := holds_candidatesIn h
  cases htouched.symm.trans htouched'
  rw [hproper.mem_pageId_iff]
  constructor
  · rintro ⟨u, hu⟩
    exact ⟨u.key, ((hholds n u).mp hu).2⟩
  · rintro ⟨k, hk⟩
    exact ⟨⟨c.entity, k⟩, (hholds n _).mpr ⟨rfl, hk⟩⟩

/-- Every page that a change affects is there, or its number can be told. -/
def Tells (f : Finder) (store : UsageStore) (titles : TitleIndex) (c : EntityChange) (touched : List AspectKey) : Prop :=
  ∀ n k, f.Affects store titles c touched n k → titles.Tells n

theorem affectedIn_of_tells (hqs : f.candidatesIn store titles c = .ok ps)
    (htouched : f.changedAspects c = .ok touched) (h : f.Tells store titles c touched) :
    ∃ qs, f.affectedIn store titles c = .ok qs := by
  have hkept : f.keptIn titles ps = .ok _ := keptIn_of_tells fun p hp => by
    obtain ⟨k, hk⟩ := (mem_pageId_candidatesIn hqs htouched).mp (List.mem_map_of_mem hp)
    exact h p.pageId k hk
  exact ⟨_, Outcome.bind_eq_ok.mpr ⟨ps, hqs, Outcome.bind_eq_ok.mpr ⟨_, hkept, rfl⟩⟩⟩

theorem affectedIn_of_not_tells (hqs : f.candidatesIn store titles c = .ok ps)
    (htouched : f.changedAspects c = .ok touched) (h : ¬f.Tells store titles c touched) :
    f.affectedIn store titles c = .error (.title .numberUnwritable) := by
  unfold Tells at h
  push Not at h
  obtain ⟨n, k, hk, hnot⟩ := h
  obtain ⟨p, hp, rfl⟩ := List.mem_map.mp ((mem_pageId_candidatesIn hqs htouched).mpr ⟨k, hk⟩)
  exact Outcome.bind_eq_error.mpr (.inr ⟨ps, hqs, Outcome.bind_eq_error.mpr (.inl (keptIn_of_not_tells ⟨p, hp, hnot⟩))⟩)

/-- A finder succeeds if no page of the store has a negative number, the change is classified, the virtual records
that it calls for can be made, and the page numbers can be told. -/
theorem exists_affected (s : σ) (hpages : ∀ page ∈ store.pages.toList, 0 ≤ page.1)
    (htouched : f.changedAspects c = .ok touched)
    (hvirtual : c.isItem = true → .bare .title ∈ touched →
      ∃ records, LinkedTitles.virtualIn titles f.site c LinkedTitles.defaultKeys = .ok records)
    (htells : f.Tells store titles c touched) :
    ∃ ps, ((f.affected (Sources.ofMemory store titles) (.entity c)).run.run s).1 = .ok ps := by
  obtain ⟨qs, hqs⟩ := exists_candidatesIn hpages htouched hvirtual
  obtain ⟨ps, hps⟩ := affectedIn_of_tells hqs htouched htells
  exact ⟨ps, (affectedBy_gives s).trans hps⟩

theorem tells_of_isShort (hpages : ∀ page ∈ store.pages.toList, Text.IsShort page.1)
    (htitles : ∀ page ∈ titles.byText.toList, Text.IsShort page.pageId) : f.Tells store titles c touched := by
  rintro n k (⟨-, hused⟩ | ⟨-, -, -, links, -, op, name, page, -, -, hpage, hne, hid⟩)
  · -- something is recorded for the page
    have hmem : ∃ u, u ∈ (store.usages n).keysOf c.entity := by
      rcases hused with hall | ⟨u, hu, -⟩
      · exact ⟨_, hall⟩
      · exact ⟨u, hu⟩
    obtain ⟨u, hu⟩ := hmem
    have hrecord := (UsageSet.mem_keysOf _).mp hu
    unfold UsageStore.usages at hrecord
    cases hfound : store.pages.find? (n : ℤ) with
    | none =>
      rw [hfound] at hrecord
      cases hrecord
    | some record =>
      obtain ⟨hrecord, hid⟩ := (Keyed.find?_eq_some _).mp hfound
      exact .inr (hid ▸ hpages record hrecord)
  · -- the page is registered under its title
    obtain ⟨text, -, rfl⟩ := Outcome.map_eq_ok.mp hpage
    cases hfound : titles.byText.find? text with
    | none =>
      rw [hfound] at hne
      exact absurd rfl hne
    | some page =>
      rw [hfound] at hne hid
      have hpageId : page.pageId = n := by
        simp only [Option.getD_some, PageRef.articleId] at hne hid
        split at hid
        · exact hid
        · rename_i hstored
          exact absurd (if_neg hstored) hne
      exact .inr (hpageId ▸ htitles page ((Keyed.find?_eq_some _).mp hfound).1)

/-- **Which pages a change affects, and how.** A page is returned if and only if the change affects it under
some key and it is found; once, and with exactly the keys under which the change affects it. -/
theorem affected_exactly {s : σ}
    (h : ((f.affected (Sources.ofMemory store titles) (.entity c)).run.run s).1 = .ok ps) :
    ∃ touched, f.changedAspects c = .ok touched ∧ (ps.map PageUsages.pageId).Nodup ∧
      (∀ n, n ∈ ps.map PageUsages.pageId ↔
        (∃ k, f.Affects store titles c touched n k) ∧ f.Found titles n) ∧
      ∀ p ∈ ps, p.toList.Nodup ∧ ∀ u, u ∈ p.toList ↔
        u.entity = c.entity ∧ f.Affects store titles c touched p.pageId u.key := by
  obtain ⟨touched, htouched, hproper, hholds⟩ := affectedIn_eq_ok ((affectedBy_gives s).symm.trans h)
  have hids := fun n => mem_pageId_iff_affects (n := n) hproper hholds
  refine ⟨touched, htouched, hproper.nodup, hids, fun p hp => ⟨p.nodup_toList, fun u => ?_⟩⟩
  have hfound : f.Found titles p.pageId := ((hids _).mp (List.mem_map_of_mem hp)).2
  rw [PageUsages.mem_toList_iff_holds hproper.nodup hp, hholds, and_iff_left hfound]

/-- An item's change with a diff of one field. -/
def itemChange (field : DiffField) (entries : List (DiffKey × DiffOp)) : EntityChange where
  isItem := true
  entity := ⟨"Q1", by decide⟩
  diff := ⟨.item, [(.name field.key, .nested .plain entries true)], true⟩
  action := .update
  revision := 0
  time := none
  metadata := []
  of_entity := nofun

/-- A page that uses everything of an item, and one that the item linked to. -/
theorem affected_exactly_link_removed :
    let c := itemChange .siteLinks [(.name "enwiki", .remove (.str "Old"))]
    let f : Finder := ⟨"enwiki", "en", true⟩
    let store := UsageStore.empty.add 1 [⟨c.entity, .bare .all⟩]
    let titles := (TitleIndex.empty.insert ⟨1, 0, "User", true⟩).insert ⟨10, 0, "Old", true⟩
    ∃ ps, ((f.affected (Sources.ofMemory store titles) (.entity c)).run.run ([] : List Note)).1 =
      .ok ps ∧ 1 ∈ ps.map PageUsages.pageId ∧ 10 ∈ ps.map PageUsages.pageId := by
  intro c f store titles
  have htouched : f.changedAspects c = .ok [.bare .siteLink, .bare .title] := rfl
  have hpages : ∀ page ∈ store.pages.toList, 0 ≤ page.1 := by decide
  have hvirtual : ∃ records, LinkedTitles.virtualIn titles f.site c LinkedTitles.defaultKeys = .ok records := ⟨_, rfl⟩
  obtain ⟨ps, hps⟩ := exists_affected ([] : List Note) hpages htouched (fun _ _ => hvirtual)
    (tells_of_isShort (by decide) (by decide))
  obtain ⟨touched, htouched', -, hids, -⟩ := affected_exactly hps
  cases htouched.symm.trans htouched'
  refine ⟨ps, hps, (hids 1).mpr ⟨⟨.bare .title, .inl ⟨by decide, .inl (by decide)⟩⟩, ?_⟩,
    (hids 10).mpr ⟨⟨.bare .siteLink, .inr ⟨rfl, rfl, by decide, _, rfl, ?_⟩⟩, ?_⟩⟩
  · exact ⟨_, rfl, fun _ => rfl⟩
  · exact ⟨_, _, _, rfl, .removed _, rfl, by decide, rfl⟩
  · exact ⟨_, rfl, fun _ => rfl⟩

end PageInvalidation.Finder
