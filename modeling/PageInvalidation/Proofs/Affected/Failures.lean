import PageInvalidation.Proofs.Affected.Pages
import PageInvalidation.Proofs.Change.Malformed

/-! # When a finder fails

With usages and titles in memory and no negative page number, a finder fails for three faults of a change
(`Finder.affected_fails_iff`): fields that stand there as leaves, labels without a language, and a change of the
own site's link that should name a title and names none (`EntityChange.Untitled`). It also fails over two texts that
cannot be made: that of a title with a lone surrogate cannot be encoded (`EntityChange.Unencodable`), and a missing page
whose number has too many digits cannot be told. Any other title is passed over if it can name no page. -/

namespace PageInvalidation

/-! ### Changes that name no title -/

/-- A change that is of no text: nothing is said of it, or it is a diff. -/
def DiffOp.IsTextless (op : DiffOp) : Prop := op = .unspecified ∨ op.toDiff?.isSome = true

/-- The change of a site link that should name a title and names none: nothing is said of the link, or its entry
for the title is of no text. -/
def DiffOp.IsUntitled (op : DiffOp) : Prop :=
  op = .unspecified ∨ ∃ d title, op.toDiff? = some d ∧ d.get? (.name ChangedAspects.nameKey) = some title ∧
    title.IsTextless

/-- An item's change has a leaf, and that of the own site's link should name a title and names none. -/
def EntityChange.Untitled (site : Text.CodeText) (c : EntityChange) : Prop :=
  c.isItem = true ∧ c.diff.form = .item ∧ c.diff.HasLeaf ∧ ∃ links op, c.diff.field .siteLinks = .ok links ∧
    links.get? (.name site) = some op ∧ op.IsUntitled

/-- An item's change has a leaf, and that of the own site's link changes more than badges and names a title that
cannot be encoded. -/
def EntityChange.Unencodable (site : Text.CodeText) (c : EntityChange) : Prop :=
  c.isItem = true ∧ c.diff.form = .item ∧ c.diff.HasLeaf ∧ ∃ links op, c.diff.field .siteLinks = .ok links ∧
    links.get? (.name site) = some op ∧ ChangedAspects.badgesOnly op = false ∧
      ∃ text, LinkedTitles.Names (LinkedTitles.titleChange op) (.str text) ∧ Title.IsUnencodable text

namespace LinkedTitles

open ChangedAspects (badgesOnly nameKey)

variable {site : Text.CodeText} {op : DiffOp} {links : Diff} {c : EntityChange} {titles : TitleIndex}
  {names : List Value}

/-! ### Titles that are named -/

/-- A change of a title names titles unless it is of no text. -/
theorem namesOf_cases (op : DiffOp) : (∃ names, namesOf op = .ok names) ∧ ¬op.IsTextless ∨
    (∃ name, namesOf op = .error (.notLeaf name)) ∧ op.IsTextless := by
  cases op with
  | add new => exact .inl ⟨⟨_, rfl⟩, by simp [DiffOp.IsTextless, DiffOp.toDiff?]⟩
  | remove old => exact .inl ⟨⟨_, rfl⟩, by simp [DiffOp.IsTextless, DiffOp.toDiff?]⟩
  | change old new => exact .inl ⟨⟨_, rfl⟩, by simp [DiffOp.IsTextless, DiffOp.toDiff?]⟩
  | unspecified => exact .inr ⟨⟨_, rfl⟩, .inl rfl⟩
  | nested form entries associative => exact .inr ⟨⟨_, rfl⟩, .inr rfl⟩

theorem exists_namesOf {name : Value} (h : Names op name) : ∃ names, namesOf op = .ok names := by
  cases h <;> exact ⟨_, rfl⟩

theorem badgesOnly_of_isUntitled (h : op.IsUntitled) : badgesOnly op = false := by
  rcases h with rfl | ⟨d, title, hd, htitle, -⟩
  · rfl
  · simp [badgesOnly, hd, Diff.hasName, htitle]

/-- Of a link that changes by more than its badges the change of the title is of no text if it names none. -/
theorem isTextless_titleChange (h : badgesOnly op = false) : (titleChange op).IsTextless ↔ op.IsUntitled := by
  unfold DiffOp.IsUntitled
  cases hd : op.toDiff? with
  | none =>
    have htitle : titleChange op = op := by simp [titleChange, hd]
    simp [htitle, DiffOp.IsTextless, hd]
  | some d =>
    have hne : op ≠ .unspecified := by
      rintro rfl
      cases hd
    have hname : d.hasName nameKey = true := by simpa [badgesOnly, hd] using h
    obtain ⟨title, htitle⟩ := Option.isSome_iff_exists.mp hname
    have hchange : titleChange op = title := by simp [titleChange, hd, htitle]
    simp [hchange, htitle, hne]

theorem namesIn_of_get? (h : links.get? (.name site) = some op) : namesIn site links = namesOf (titleChange op) := by
  simp [namesIn, h]

/-! ### Records that are made -/

theorem siteLinks_eq_field (hitem : c.isItem = true) (hform : c.diff.form = .item) :
    c.siteLinks = c.diff.field .siteLinks := by
  simp [EntityChange.siteLinks, hitem, hform]

theorem articleId_nonneg (htitles : ∀ page ∈ titles.byText.toList, 0 ≤ page.pageId) {name : Value} {page : PageRef}
    (h : titles.pageByText name = .ok page) : 0 ≤ page.articleId := by
  obtain ⟨text, -, rfl⟩ := Outcome.map_eq_ok.mp h
  cases hfound : titles.byText.find? text with
  | none => exact le_rfl
  | some page =>
    have hpage : 0 ≤ page.pageId := htitles page (titles.byText.find?_eq_some.mp hfound).1
    simp only [Option.getD_some, PageRef.articleId]
    split
    · exact hpage
    · exact le_rfl

theorem exists_addVirtualIn {page : PageRef} (h : 0 ≤ page.articleId) (usages : List Usage) (records : Records) :
    ∃ records', addVirtualIn usages records page = .ok records' := by
  unfold addVirtualIn
  split
  · exact ⟨_, rfl⟩
  · have hid : PageUsages.pageIdOfInt page.articleId = .ok page.articleId.toNat :=
      PageUsages.pageIdOfInt_eq_ok.mpr (Int.toNat_of_nonneg h).symm
    exact ⟨_, by rw [hid]; rfl⟩

theorem exists_foldlM_addVirtualIn (usages : List Usage) : ∀ {pages : List PageRef},
    (∀ page ∈ pages, 0 ≤ page.articleId) → ∀ records : Records,
      ∃ records', pages.foldlM (addVirtualIn usages) records = .ok records'
  | [], _, records => ⟨records, rfl⟩
  | page :: pages, h, records => by
    obtain ⟨between, hstep⟩ := exists_addVirtualIn (h page List.mem_cons_self) usages records
    obtain ⟨records', hrest⟩ :=
      exists_foldlM_addVirtualIn usages (fun page' hpage' => h page' (List.mem_cons_of_mem page hpage')) between
    exact ⟨records', List.foldlM_cons.trans (Outcome.bind_eq_ok.mpr ⟨between, hstep, hrest⟩)⟩

theorem exists_virtualIn (htitles : ∀ page ∈ titles.byText.toList, 0 ≤ page.pageId) (hlinks : c.siteLinks = .ok links)
    (hnames : namesIn site links = .ok names) {pages : List PageRef} (hpages : titles.pagesFor names = .ok pages) :
    ∃ records, virtualIn titles site c defaultKeys = .ok records := by
  have hids : ∀ page ∈ pages, 0 ≤ page.articleId := by
    intro page hpage
    obtain ⟨name, -, hname⟩ := (TitleIndex.mem_pagesFor hpages).mp hpage
    exact articleId_nonneg htitles hname
  obtain ⟨records, hrecords⟩ := exists_foldlM_addVirtualIn [⟨c.entity, .bare .siteLink⟩] hids Keyed.empty
  refine ⟨records, ?_⟩
  rw [virtualIn, hlinks]
  simp only [Except.mapError, hnames, hpages, bind, Except.bind]
  exact hrecords

theorem virtualIn_of_pagesFor_error {e : Title.Error} (hlinks : c.siteLinks = .ok links)
    (hnames : namesIn site links = .ok names) (hpages : titles.pagesFor names = .error e) (keys : List Value) :
    virtualIn titles site c keys = .error (.title e) := by
  rw [virtualIn, hlinks]
  simp only [Except.mapError, hnames, hpages, bind, Except.bind]

theorem virtualIn_of_namesIn_error {e : Diff.Error} (hlinks : c.siteLinks = .ok links)
    (hnames : namesIn site links = .error e) (keys : List Value) :
    virtualIn titles site c keys = .error (.diff e) := by
  rw [virtualIn, hlinks]
  simp only [Except.mapError, hnames, bind, Except.bind]

end LinkedTitles

namespace ChangedAspects

variable {site : Text.CodeText} {c : EntityChange} {touched : List AspectKey} {links : Diff} {op : DiffOp}

theorem title_mem_of_ofChange (h : ofChange site c = .ok touched) : .bare .title ∈ touched ↔
    c.diff.HasLeaf ∧ c.diff.form = .item ∧ ∃ links op, c.diff.field .siteLinks = .ok links ∧
      links.get? (.name site) = some op ∧ badgesOnly op = false := by
  rcases ofDiff_eq_ok h with ⟨h0, rfl⟩ | ⟨h0, part, labels, hpart, hlabels, hmem⟩
  · have hnone : ¬c.diff.HasLeaf := fun hleaf => Diff.hasLeaf_iff.mp hleaf h0
    have hne : AspectKey.bare .title ≠ .bare .other := by decide
    simp [hnone, hne]
  · rw [title_mem_iff hlabels hmem, title_mem_siteLinkPart hpart, and_iff_right (Diff.hasLeaf_iff.mpr h0)]

end ChangedAspects

/-! ### The finder -/

namespace Finder

variable {σ : Type} [Journalled σ] {f : Finder} {store : UsageStore} {titles : TitleIndex} {c : EntityChange}
  {touched : List AspectKey}

theorem exists_virtualIn_of_not_untitled (htitles : ∀ page ∈ titles.byText.toList, 0 ≤ page.pageId)
    (htouched : f.changedAspects c = .ok touched) (hu : ¬c.Untitled f.site) (hencoded : ¬c.Unencodable f.site)
    (hitem : c.isItem = true) (htitle : .bare .title ∈ touched) :
    ∃ records, LinkedTitles.virtualIn titles f.site c LinkedTitles.defaultKeys = .ok records := by
  obtain ⟨hleaf, hform, links, op, hlinks, hop, hmore⟩ := (ChangedAspects.title_mem_of_ofChange htouched).mp htitle
  have hsite := (LinkedTitles.siteLinks_eq_field hitem hform).trans hlinks
  rcases LinkedTitles.namesOf_cases (LinkedTitles.titleChange op) with ⟨⟨names, hnames⟩, -⟩ | ⟨-, htextless⟩
  · rcases titles.pagesFor_cases names with ⟨⟨pages, hpages⟩, -⟩ | ⟨-, text, hmem, htext⟩
    · exact LinkedTitles.exists_virtualIn htitles hsite ((LinkedTitles.namesIn_of_get? hop).trans hnames) hpages
    · have hnamed := (LinkedTitles.namesOf_eq_ok hnames).mp hmem
      exact absurd ⟨hitem, hform, hleaf, links, op, hlinks, hop, hmore, text, hnamed, htext⟩ hencoded
  · have huntitled : op.IsUntitled := (LinkedTitles.isTextless_titleChange hmore).mp htextless
    exact absurd ⟨hitem, hform, hleaf, links, op, hlinks, hop, huntitled⟩ hu

theorem virtualIn_of_unencodable (titles : TitleIndex) (htouched : f.changedAspects c = .ok touched)
    (h : c.Unencodable f.site) : c.isItem = true ∧ .bare .title ∈ touched ∧ ∃ u, ∀ keys,
      LinkedTitles.virtualIn titles f.site c keys = .error (.title (.unwritable u)) := by
  obtain ⟨hitem, hform, hleaf, links, op, hlinks, hop, hmore, text, hnamed, htext⟩ := h
  refine ⟨hitem, (ChangedAspects.title_mem_of_ofChange htouched).mpr ⟨hleaf, hform, links, op, hlinks, hop, hmore⟩, ?_⟩
  obtain ⟨names, hnames⟩ := LinkedTitles.exists_namesOf hnamed
  rcases titles.pagesFor_cases names with ⟨-, hall⟩ | ⟨⟨u, hu⟩, -⟩
  · exact absurd htext (hall text ((LinkedTitles.namesOf_eq_ok hnames).mpr hnamed))
  · exact ⟨u, LinkedTitles.virtualIn_of_pagesFor_error ((LinkedTitles.siteLinks_eq_field hitem hform).trans hlinks)
      ((LinkedTitles.namesIn_of_get? hop).trans hnames) hu⟩

theorem virtualIn_of_untitled (titles : TitleIndex) (htouched : f.changedAspects c = .ok touched)
    (hu : c.Untitled f.site) : c.isItem = true ∧ .bare .title ∈ touched ∧ ∃ name, ∀ keys,
      LinkedTitles.virtualIn titles f.site c keys = .error (.diff (.notLeaf name)) := by
  obtain ⟨hitem, hform, hleaf, links, op, hlinks, hop, htextless⟩ := hu
  have hmore := LinkedTitles.badgesOnly_of_isUntitled htextless
  rcases LinkedTitles.namesOf_cases (LinkedTitles.titleChange op) with ⟨-, hnot⟩ | ⟨⟨name, hname⟩, -⟩
  · exact absurd ((LinkedTitles.isTextless_titleChange hmore).mpr htextless) hnot
  · refine ⟨hitem, (ChangedAspects.title_mem_of_ofChange htouched).mpr ⟨hleaf, hform, links, op, hlinks, hop, hmore⟩,
      name, fun keys => ?_⟩
    exact LinkedTitles.virtualIn_of_namesIn_error ((LinkedTitles.siteLinks_eq_field hitem hform).trans hlinks)
      ((LinkedTitles.namesIn_of_get? hop).trans hname) keys

theorem affectedIn_of_error {e : Fault} (h : f.changedAspects c = .error e) :
    f.affectedIn store titles c = .error e := by
  rw [affectedIn, candidatesIn, h]
  rfl

theorem affectedIn_of_virtualIn_error {e : Fault} (hpages : ∀ page ∈ store.pages.toList, 0 ≤ page.1)
    (htouched : f.changedAspects c = .ok touched) (hitem : c.isItem = true) (htitle : .bare .title ∈ touched)
    (h : LinkedTitles.virtualIn titles f.site c LinkedTitles.defaultKeys = .error e) :
    f.affectedIn store titles c = .error e := by
  have hlookup : ∃ used, store.pagesUsing [c.entity] (lookupKeys touched) = .ok used :=
    UsageStore.exists_pagesUsing hpages
  obtain ⟨used, hused⟩ := hlookup
  have hcandidates : f.candidatesIn store titles c = .error e := by
    rw [candidatesIn, htouched]
    simp only [bind, Except.bind, hused, Except.mapError, hitem, htitle, decide_true, Bool.and_self, if_true, h]
  rw [affectedIn, hcandidates]
  rfl

/-- A change affects a page that is not there and whose number has too many digits to be told. -/
def NumberUntold (f : Finder) (store : UsageStore) (titles : TitleIndex) (c : EntityChange) : Prop :=
  ∃ touched, f.changedAspects c = .ok touched ∧ ∃ n k, f.Affects store titles c touched n k ∧
    (∀ page, titles.pageById n ≠ .ok page) ∧ ¬Text.IsShort n

theorem not_tells_iff (htouched : f.changedAspects c = .ok touched) :
    ¬f.Tells store titles c touched ↔ f.NumberUntold store titles c := by
  unfold Tells NumberUntold TitleIndex.Tells
  push Not
  constructor
  · rintro ⟨n, k, hk, hnot, hlong⟩
    exact ⟨touched, htouched, n, k, hk, hnot, hlong⟩
  · rintro ⟨touched', htouched', n, k, hk, hnot, hlong⟩
    cases htouched.symm.trans htouched'
    exact ⟨n, k, hk, hnot, hlong⟩

/-- What a finder gives, case by case: the fault of a misplaced field comes before that of a label, both before
that of a link, which comes before that of its title, and a page number comes last. -/
theorem affected_cases (s : σ) (hpages : ∀ page ∈ store.pages.toList, 0 ≤ page.1)
    (htitles : ∀ page ∈ titles.byText.toList, 0 ≤ page.pageId) {r : Except Fault (List PageUsages)}
    (hr : ((f.affected (Sources.ofMemory store titles) (.entity c)).run.run s).1 = r) :
    (c.Malformed ∧ ∃ e, r = .error e ∧ e.kind = "UnknownDiffOpError") ∨
    (¬c.Malformed ∧ c.Unnamed ∧ ∃ e, r = .error e ∧ e.kind = "AspectKeyFormatError") ∨
    (¬c.Malformed ∧ ¬c.Unnamed ∧ c.Untitled f.site ∧ ∃ e, r = .error e ∧ e.kind = "UnknownDiffOpError") ∨
    (¬c.Malformed ∧ ¬c.Unnamed ∧ ¬c.Untitled f.site ∧ c.Unencodable f.site ∧
      ∃ e, r = .error e ∧ e.kind = "UnicodeEncodeError") ∨
    (¬c.Malformed ∧ ¬c.Unnamed ∧ ¬c.Untitled f.site ∧ ¬c.Unencodable f.site ∧ f.NumberUntold store titles c ∧
      ∃ e, r = .error e ∧ e.kind = "ValueError") ∨
    (¬c.Malformed ∧ ¬c.Unnamed ∧ ¬c.Untitled f.site ∧ ¬c.Unencodable f.site ∧ ¬f.NumberUntold store titles c ∧
      ∃ ps, r = .ok ps) := by
  have hgives : r = f.affectedIn store titles c := hr.symm.trans (affectedBy_gives s)
  by_cases hm : c.Malformed
  · obtain ⟨e, he, hkind⟩ := ChangedAspects.ofChange_of_malformed f.site hm
    exact .inl ⟨hm, e, hgives.trans (affectedIn_of_error he), hkind⟩
  by_cases hn : c.Unnamed
  · obtain ⟨e, he, hkind⟩ := ChangedAspects.ofChange_of_unnamed f.site hm hn
    exact .inr (.inl ⟨hm, hn, e, hgives.trans (affectedIn_of_error he), hkind⟩)
  obtain ⟨touched, htouched⟩ := ChangedAspects.exists_ofChange f.site hm hn
  by_cases hu : c.Untitled f.site
  · obtain ⟨hitem, htitle, name, hvirtual⟩ := virtualIn_of_untitled titles htouched hu
    have hfails := affectedIn_of_virtualIn_error hpages htouched hitem htitle (hvirtual _)
    exact .inr (.inr (.inl ⟨hm, hn, hu, _, hgives.trans hfails, rfl⟩))
  by_cases hencoded : c.Unencodable f.site
  · obtain ⟨hitem, htitle, u, hvirtual⟩ := virtualIn_of_unencodable titles htouched hencoded
    have hfails := affectedIn_of_virtualIn_error hpages htouched hitem htitle (hvirtual _)
    exact .inr (.inr (.inr (.inl ⟨hm, hn, hu, hencoded, _, hgives.trans hfails, rfl⟩)))
  obtain ⟨qs, hqs⟩ := exists_candidatesIn hpages htouched
    (exists_virtualIn_of_not_untitled htitles htouched hu hencoded)
  by_cases htells : f.Tells store titles c touched
  · obtain ⟨ps, hps⟩ := affectedIn_of_tells hqs htouched htells
    have htold : ¬f.NumberUntold store titles c := fun h => (not_tells_iff htouched).mpr h htells
    exact .inr (.inr (.inr (.inr (.inr ⟨hm, hn, hu, hencoded, htold, ps, hgives.trans hps⟩))))
  · have hfails := affectedIn_of_not_tells hqs htouched htells
    have huntold := (not_tells_iff htouched).mp htells
    exact .inr (.inr (.inr (.inr (.inl ⟨hm, hn, hu, hencoded, huntold, _, hgives.trans hfails, rfl⟩))))

/-- **When a finder fails**, and for which fault. -/
theorem affected_fails_iff (s : σ) (hpages : ∀ page ∈ store.pages.toList, 0 ≤ page.1)
    (htitles : ∀ page ∈ titles.byText.toList, 0 ≤ page.pageId) :
    ((∃ e, ((f.affected (Sources.ofMemory store titles) (.entity c)).run.run s).1 = .error e) ↔
      c.Malformed ∨ c.Unnamed ∨ c.Untitled f.site ∨ c.Unencodable f.site ∨ f.NumberUntold store titles c) ∧
    ∀ e, ((f.affected (Sources.ofMemory store titles) (.entity c)).run.run s).1 = .error e →
      (¬c.Malformed ∧ c.Unnamed → e.kind = "AspectKeyFormatError") ∧
      (c.Malformed ∨ ¬c.Unnamed ∧ c.Untitled f.site → e.kind = "UnknownDiffOpError") ∧
      (¬c.Malformed ∧ ¬c.Unnamed ∧ ¬c.Untitled f.site →
        (c.Unencodable f.site → e.kind = "UnicodeEncodeError") ∧ (¬c.Unencodable f.site → e.kind = "ValueError")) := by
  rcases affected_cases s hpages htitles rfl with ⟨hm, e, he, hkind⟩ | ⟨hm, hn, e, he, hkind⟩ |
    ⟨hm, hn, hu, e, he, hkind⟩ | ⟨hm, hn, hu, hencoded, e, he, hkind⟩ |
    ⟨hm, hn, hu, hencoded, huntold, e, he, hkind⟩ | ⟨hm, hn, hu, hencoded, huntold, ps, hps⟩
  · refine ⟨iff_of_true ⟨e, he⟩ (.inl hm), fun e' he' => ?_⟩
    cases he.symm.trans he'
    simp [hm, hkind]
  · refine ⟨iff_of_true ⟨e, he⟩ (.inr (.inl hn)), fun e' he' => ?_⟩
    cases he.symm.trans he'
    simp [hm, hn, hkind]
  · refine ⟨iff_of_true ⟨e, he⟩ (.inr (.inr (.inl hu))), fun e' he' => ?_⟩
    cases he.symm.trans he'
    simp [hn, hu, hkind]
  · refine ⟨iff_of_true ⟨e, he⟩ (.inr (.inr (.inr (.inl hencoded)))), fun e' he' => ?_⟩
    cases he.symm.trans he'
    simp [hm, hn, hu, hencoded, hkind]
  · refine ⟨iff_of_true ⟨e, he⟩ (.inr (.inr (.inr (.inr huntold)))), fun e' he' => ?_⟩
    cases he.symm.trans he'
    simp [hm, hn, hu, hencoded, hkind]
  · refine ⟨iff_of_false ?_ (by simp [hm, hn, hu, hencoded, huntold]), fun e' he' => ?_⟩
    · rintro ⟨e, he⟩
      cases hps.symm.trans he
    · cases hps.symm.trans he'

/-- A link of which nothing is said is fatal, and no other page or title helps. -/
theorem affected_fails_iff_link_unspecified :
    let c := itemChange .siteLinks [(.name "enwiki", .unspecified)]
    let f : Finder := ⟨"enwiki", "en", false⟩
    let store := UsageStore.empty.add 1 [⟨c.entity, .bare .all⟩]
    let titles := TitleIndex.empty.insert ⟨10, 0, "Old", true⟩
    ∃ e, ((f.affected (Sources.ofMemory store titles) (.entity c)).run.run ([] : List Note)).1 = .error e ∧
      e.kind = "UnknownDiffOpError" := by
  intro c f store titles
  have hpages : ∀ page ∈ store.pages.toList, 0 ≤ page.1 := by decide
  have htitles : ∀ page ∈ titles.byText.toList, 0 ≤ page.pageId := by decide
  have hleaf : c.diff.HasLeaf := Diff.hasLeaf_iff.mpr (by decide)
  have huntitled : c.Untitled f.site := ⟨rfl, rfl, hleaf, _, .unspecified, rfl, rfl, .inl rfl⟩
  obtain ⟨hiff, hkinds⟩ := affected_fails_iff (c := c) (f := f) ([] : List Note) hpages htitles
  obtain ⟨e, he⟩ := hiff.mpr (.inr (.inr (.inl huntitled)))
  have hunnamed : ¬c.Unnamed := by
    rintro ⟨-, labels, hlabels, k, hk, -⟩
    cases hlabels
    cases hk
  exact ⟨e, he, (hkinds e he).2.1 (.inr ⟨hunnamed, huntitled⟩)⟩

/-- **A title with a lone surrogate makes a finder fail**, although no fault is in the change. -/
theorem surrogate_title_fails :
    let c := itemChange .siteLinks [(.name "enwiki", .add (.str [.lone 0]))]
    let f : Finder := ⟨"enwiki", "en", false⟩
    ¬c.Malformed ∧ ¬c.Unnamed ∧ ¬c.Untitled f.site ∧
      ((f.affected (Sources.ofMemory .empty .empty) (.entity c)).run.run ([] : List Note)).1 =
        .error (.title (.unwritable ⟨0, 1, .lone 0⟩)) := by
  intro c f
  have htouched : f.changedAspects c = .ok [.bare .siteLink, .bare .title] := rfl
  have hvirtual : LinkedTitles.virtualIn .empty f.site c LinkedTitles.defaultKeys =
      .error (.title (.unwritable ⟨0, 1, .lone 0⟩)) := rfl
  refine ⟨?_, ?_, ?_, (affectedBy_gives _).trans
    (affectedIn_of_virtualIn_error (by decide) htouched rfl (by decide) hvirtual)⟩
  · rintro (⟨op, hop, hleaf⟩ | ⟨-, op, hop, hleaf⟩)
    · cases hop
    · cases hop
      cases hleaf
  · rintro ⟨-, labels, hlabels, k, hk, -⟩
    cases hlabels
    cases hk
  · rintro ⟨-, -, -, links, op, hlinks, hop, huntitled⟩
    cases hlinks
    cases hop
    rcases huntitled with h | ⟨d, -, h, -⟩ <;> cases h

end Finder

end PageInvalidation
