import PageInvalidation.Affected.Titles
import PageInvalidation.Proofs.Change.Diff
import PageInvalidation.Proofs.Journal
import PageInvalidation.Proofs.Outcome
import PageInvalidation.Proofs.Title.Index
import PageInvalidation.Proofs.Usage.Page

/-! # Which pages get virtual usages

A page gets a virtual usage if the change of the own site's link names it, by its old or its new title, and
it is stored (`LinkedTitles.virtualIn_eq_ok`). With titles in memory the lookup gives one result whatever is in
the journal (`LinkedTitles.ofChange_gives`). -/

namespace PageInvalidation.LinkedTitles

variable {σ : Type} [Journalled σ] {store : UsageStore} {titles : TitleIndex} {site : Text.CodeText}
  {names : List Value} {name : Value} {op : DiffOp} {links : Diff} {usages : List Usage}
  {pages : List PageRef} {records records' : Records} {p : PageUsages} {n : ℕ}

/-! ### The titles named -/

/-- A title that the change of a title names, as the new or as the old one. -/
inductive Names : DiffOp → Value → Prop
  | added (new : Value) : Names (.add new) new
  | removed (old : Value) : Names (.remove old) old
  | changedTo (old new : Value) : Names (.change old new) new
  | changedFrom (old new : Value) : Names (.change old new) old

theorem namesOf_eq_ok (h : namesOf op = .ok names) : name ∈ names ↔ Names op name := by
  constructor
  · intro hm
    cases op with
    | add new => cases h; cases List.mem_singleton.mp hm; exact .added _
    | remove old => cases h; cases List.mem_singleton.mp hm; exact .removed _
    | change old new =>
      cases h
      rcases List.mem_pair.mp hm with rfl | rfl
      · exact .changedTo _ _
      · exact .changedFrom _ _
    | unspecified => cases h
    | nested => cases h
  · intro hn
    cases hn <;> cases h <;> simp

theorem namesIn_eq_ok (h : namesIn site links = .ok names) :
    name ∈ names ↔ ∃ op, links.get? (.name site) = some op ∧ Names (titleChange op) name := by
  unfold namesIn at h
  cases hop : links.get? (.name site) with
  | none =>
    rw [hop] at h
    cases h
    simp
  | some op =>
    rw [hop] at h
    simp [namesOf_eq_ok h]

/-! ### The pages named -/

theorem pageNamed_gives (name : Value) :
    (pageNamed (Sources.ofMemory store titles) name : Act σ _).Gives
      ((titles.pageFor name).mapError .title) := by
  have hlookup : (some <$> (Sources.ofMemory store titles).pageByText name : Act σ _).Gives
      (((titles.pageByText name).mapError .title).map some) := (Act.gives_ofExcept .title _).map some
  rw [TitleIndex.pageFor]
  cases hpage : titles.pageByText name with
  | ok page =>
    rw [hpage] at hlookup
    exact hlookup.tryCatch_of_ok _
  | error e =>
    rw [hpage] at hlookup
    refine hlookup.tryCatch_of_error ?_
    dsimp only
    split
    · exact (Act.gives_note _ _ _).bind fun _ _ => Act.gives_pure none
    · exact Act.gives_throw _

theorem pagesNamed_gives : ∀ names : List Value,
    (pagesNamed (Sources.ofMemory store titles) names : Act σ _).Gives ((titles.pagesFor names).mapError .title)
  | [] => Act.gives_pure []
  | name :: names => by
    rw [TitleIndex.pagesFor, Outcome.mapError_bind]
    refine (pageNamed_gives name).bind fun page _ => ?_
    rw [Outcome.mapError_bind]
    exact (pagesNamed_gives names).bind fun pages _ => Act.gives_pure (page.toList ++ pages)

/-! ### The records made -/

/-- What adding the virtual record of a page gives. -/
def addVirtualIn (usages : List Usage) (records : Records) (page : PageRef) : Except Fault Records :=
  if page.articleId = 0 then .ok records
  else do
    let n ← (PageUsages.pageIdOfInt page.articleId).mapError .usage
    return records.put (.ofList n usages)

theorem addVirtual_gives (records : Records) (page : PageRef) :
    (addVirtual usages records page : Act σ _).Gives (addVirtualIn usages records page) := by
  unfold addVirtual addVirtualIn
  split
  · exact (Act.gives_note _ _ _).bind fun _ _ => Act.gives_pure records
  · exact (Act.gives_ofExcept .usage _).bind fun n _ => Act.gives_pure _

/-- What making the virtual records of pages gives. -/
def virtualRecordsIn (pages : List PageRef) (entity : EntityId) (keys : List Value) :
    Except Fault Records := do
  let usages ← (keys.mapM (Usage.ofKeyValue entity)).mapError .usage
  pages.foldlM (addVirtualIn usages) Keyed.empty

theorem virtualRecords_gives (entity : EntityId) (keys : List Value) :
    (virtualRecords pages entity keys : Act σ _).Gives (virtualRecordsIn pages entity keys) :=
  (Act.gives_ofExcept .usage _).bind fun _ _ => Act.Gives.foldlM addVirtual_gives pages Keyed.empty

/-- The virtual records that an item's change makes, with titles in memory. -/
def virtualIn (titles : TitleIndex) (site : Text.CodeText) (c : EntityChange) (keys : List Value) :
    Except Fault Records := do
  let links ← c.siteLinks.mapError .diff
  let names ← (namesIn site links).mapError .diff
  let pages ← (titles.pagesFor names).mapError .title
  virtualRecordsIn pages c.entity keys

theorem ofChange_gives (c : EntityChange) (keys : List Value) :
    (ofChange (Sources.ofMemory store titles) site c keys : Act σ _).Gives
      (virtualIn titles site c keys) := by
  refine (Act.gives_ofExcept .diff c.siteLinks).bind fun links _ => ?_
  refine (Act.gives_ofExcept .diff (namesIn site links)).bind fun names _ => ?_
  exact (pagesNamed_gives names).bind fun pages _ => virtualRecords_gives c.entity keys

/-- A page is added under its number; the others stay. -/
theorem addVirtualIn_eq_ok {page : PageRef} (h : addVirtualIn usages records page = .ok records') :
    (n ∈ records'.keys ↔ n ∈ records.keys ∨ page.articleId ≠ 0 ∧ page.articleId = n) ∧
      ∀ p ∈ records'.toList, p ∈ records.toList ∨ p = .ofList p.pageId usages := by
  unfold addVirtualIn at h
  split at h
  · rename_i h0
    cases h
    exact ⟨by simp [h0], fun p hp => .inl hp⟩
  · rename_i h0
    obtain ⟨m, hm, h⟩ := Outcome.bind_eq_ok.mp h
    cases h
    have hid : page.articleId = m := PageUsages.pageIdOfInt_eq_ok.mp (Outcome.mapError_eq_ok.mp hm)
    constructor
    · rw [Keyed.mem_keys_put, PageUsages.pageId_ofList, or_comm, hid, Int.natCast_inj, eq_comm]
      simp [← hid, h0]
    · intro p hp
      rcases records.mem_put.mp hp with rfl | ⟨hp, -⟩
      · exact .inr rfl
      · exact .inl hp

theorem foldlM_addVirtualIn_eq_ok : ∀ {pages : List PageRef} {records : Records},
    pages.foldlM (addVirtualIn usages) records = .ok records' →
      (n ∈ records'.keys ↔ n ∈ records.keys ∨ ∃ page ∈ pages, page.articleId ≠ 0 ∧ page.articleId = n) ∧
        ∀ p ∈ records'.toList, p ∈ records.toList ∨ p = .ofList p.pageId usages
  | [], records, h => by
    cases h
    exact ⟨by simp, fun p hp => .inl hp⟩
  | page :: pages, records, h => by
    obtain ⟨between, hstep, h⟩ := Outcome.bind_eq_ok.mp (List.foldlM_cons.symm.trans h)
    obtain ⟨hkeys, hrecords⟩ := addVirtualIn_eq_ok hstep
    obtain ⟨hkeys', hrecords'⟩ := foldlM_addVirtualIn_eq_ok h
    constructor
    · rw [hkeys', hkeys, or_assoc, List.exists_mem_cons_iff]
    · intro p hp
      rcases hrecords' p hp with hp | hp
      · exact hrecords p hp
      · exact .inr hp

/-! ### The virtual usages -/

/-- The change of the own site's link names the stored page with a number. -/
def NamesPage (titles : TitleIndex) (site : Text.CodeText) (links : Diff) (n : ℕ) : Prop :=
  ∃ op name page, links.get? (.name site) = some op ∧ Names (titleChange op) name ∧
    titles.pageByText name = .ok page ∧ page.articleId ≠ 0 ∧ page.articleId = n

/-- **The virtual records**: of each page named, using the entity through its site link. -/
theorem virtualIn_eq_ok {c : EntityChange} (h : virtualIn titles site c defaultKeys = .ok records) :
    ∃ links, c.siteLinks = .ok links ∧ (∀ n, n ∈ records.keys ↔ NamesPage titles site links n) ∧
      ∀ p ∈ records.toList, p = .ofList p.pageId [⟨c.entity, .bare .siteLink⟩] := by
  obtain ⟨links, hlinks, h⟩ := Outcome.bind_eq_ok.mp h
  obtain ⟨names, hnames, h⟩ := Outcome.bind_eq_ok.mp h
  obtain ⟨pages, hpages, h⟩ := Outcome.bind_eq_ok.mp h
  obtain ⟨usages, husages, h⟩ := Outcome.bind_eq_ok.mp h
  have husages' : [(⟨c.entity, .bare .siteLink⟩ : Usage)] = usages := Except.ok.inj husages
  refine ⟨links, Outcome.mapError_eq_ok.mp hlinks, fun n => ?_, fun p hp => ?_⟩
  · rw [(foldlM_addVirtualIn_eq_ok h).1]
    simp only [Keyed.keys, Keyed.toList_empty, List.map_nil, List.not_mem_nil, false_or,
      TitleIndex.mem_pagesFor (Outcome.mapError_eq_ok.mp hpages), namesIn_eq_ok (Outcome.mapError_eq_ok.mp hnames),
      NamesPage]
    constructor
    · rintro ⟨page, ⟨name, ⟨op, hop, hname⟩, hpage⟩, hid⟩
      exact ⟨op, name, page, hop, hname, hpage, hid⟩
    · rintro ⟨op, name, page, hop, hname, hpage, hid⟩
      exact ⟨page, ⟨name, ⟨op, hop, hname⟩, hpage⟩, hid⟩
  · rcases (foldlM_addVirtualIn_eq_ok (n := 0) h).2 p hp with hp | hp
    · cases hp
    · rw [husages']
      exact hp

end PageInvalidation.LinkedTitles
