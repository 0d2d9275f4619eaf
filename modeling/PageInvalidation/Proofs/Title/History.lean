import PageInvalidation.Proofs.Keyed
import PageInvalidation.Proofs.Outcome
import PageInvalidation.Proofs.Title.Normal
import PageInvalidation.Title.Index

/-! # What registering pages leaves behind

Whatever is registered in whatever order, each lookup gives the last page registered under its key
(`TitleIndex.ofRegistrations_eq`). The two lookups agree except for what is left behind
(`TitleIndex.lookups_agree_iff`): a page that gets a new title is still found under its old one, and a title that
has more than 255 bytes once it is normalized cannot be looked up. -/

namespace PageInvalidation.TitleIndex

/-! ### Runs -/

/-- What a page is registered with. -/
structure Registration where
  pageId : Int
  title : Value
  nameSpace : Int
  stored : Bool

/-- The page that is registered; none if the title can name none. -/
def Registration.page? (g : Registration) : Option PageRef :=
  ((Title.normalizeValue g.title).map fun text => ⟨g.pageId, g.nameSpace, text, g.stored⟩).toOption

/-- A registration; one that fails changes nothing. -/
def register (t : TitleIndex) (g : Registration) : TitleIndex :=
  match t.add g.pageId g.title g.nameSpace g.stored with
  | .ok (t, _) => t
  | .error _ => t

/-- The index after registrations one after the other. -/
def ofRegistrations (gs : List Registration) : TitleIndex := gs.foldl register empty

/-- The pages registered, the latest first. -/
def registered (gs : List Registration) : List PageRef := (gs.filterMap Registration.page?).reverse

/-- The pages registered after the last registration of a page. -/
def since (r : PageRef) (pages : List PageRef) : List PageRef := pages.takeWhile fun p => p ≠ r

variable {gs : List Registration} {r : PageRef}

/-- One registration: the page takes over its number and its title. -/
theorem register_eq (t : TitleIndex) (g : Registration) : t.register g = (g.page?.map t.insert).getD t := by
  unfold register Registration.page? add
  cases Title.normalizeValue g.title <;> rfl

/-- **A run of registrations** leaves under each number and each title the last page put there. -/
theorem ofRegistrations_eq (gs : List Registration) : ofRegistrations gs =
    ⟨Keyed.ofListLast (gs.filterMap Registration.page?), Keyed.ofListLast (gs.filterMap Registration.page?)⟩ := by
  induction gs using List.reverseRecOn with
  | nil => rfl
  | append_singleton gs g ih =>
    have hstep : ofRegistrations (gs ++ [g]) = (ofRegistrations gs).register g := by simp [ofRegistrations]
    rw [hstep, register_eq, ih, List.filterMap_append]
    cases hp : g.page? with
    | none => simp [hp]
    | some p => simp [hp, insert, Keyed.ofListLast]

/-! ### Lookups -/

theorem exists_normalize_of_mem_registered (h : r ∈ registered gs) : ∃ text, Title.normalize text = .ok r.text := by
  obtain ⟨g, -, hg⟩ := List.mem_filterMap.mp (List.mem_reverse.mp h)
  unfold Registration.page? Title.normalizeValue at hg
  cases htitle : g.title with
  | str text =>
    rw [htitle] at hg
    cases hn : Title.normalize text with
    | error e => simp [hn, Except.map, Except.toOption] at hg
    | ok normal =>
      simp only [hn, Except.map, Except.toOption, Option.some.injEq] at hg
      exact ⟨text, by rw [hn, ← hg]⟩
  | _ => simp [htitle, Except.map, Except.toOption] at hg

theorem find?_eq_some_iff_since {κ : Type} [DecidableEq κ] (key : PageRef → κ) : ∀ {pages : List PageRef},
    r ∈ pages → (pages.find? (fun p => key p = key r) = some r ↔ ∀ p ∈ since r pages, key p ≠ key r)
  | [], h => by cases h
  | p :: pages, h => by
    by_cases hp : p = r
    · subst hp
      simp [since]
    · have hrest : r ∈ pages := (List.mem_cons.mp h).resolve_left fun h => hp h.symm
      have hsince : since r (p :: pages) = p :: since r pages := by simp [since, hp]
      rw [hsince, List.forall_mem_cons, ← find?_eq_some_iff_since key hrest]
      by_cases hk : key p = key r <;> simp [hk, hp]

theorem pageById_eq_ok_iff {n : Int} : (ofRegistrations gs).pageById n = .ok r ↔
    (registered gs).find? (fun p => p.pageId = n) = some r := by
  rw [ofRegistrations_eq, pageById, registered]
  simp only [Keyed.find?_ofListLast]
  cases List.find? (fun p => decide (PageRef.pageId p = n)) (gs.filterMap Registration.page?).reverse <;> simp

theorem pageByText_eq_ok_iff {v : Value} (h : r ∈ registered gs) : (ofRegistrations gs).pageByText v = .ok r ↔
    Title.normalizeValue v = .ok r.text ∧ (registered gs).find? (fun p => p.text = r.text) = some r := by
  have hfind : ∀ text, (ofRegistrations gs).byText.find? text = (registered gs).find? fun p => p.text = text := by
    intro text
    rw [ofRegistrations_eq]
    exact Keyed.find?_ofListLast text _
  have hfound : (registered gs).find? (fun p => p.text = r.text) ≠ none := by
    intro hnone
    simpa using List.find?_eq_none.mp hnone r h
  rw [pageByText, Outcome.map_eq_ok]
  simp only [hfind]
  constructor
  · rintro ⟨text, hn, hpage⟩
    cases hp : (registered gs).find? fun p => p.text = text with
    | none =>
      -- a place where a page could be is not where one is registered
      rw [hp, Option.getD_none] at hpage
      subst hpage
      exact absurd hp hfound
    | some p =>
      rw [hp, Option.getD_some] at hpage
      subst hpage
      have htext : p.text = text := by simpa using List.find?_some hp
      rw [htext]
      exact ⟨hn, hp⟩
  · rintro ⟨hn, hp⟩
    exact ⟨r.text, hn, by rw [hp, Option.getD_some]⟩

/-- **When the two lookups agree.** A page found by its number is found by its title, unless another page has come
under that title since, if the title is not too long to be looked up; a registered page found by a title is found by
its number, unless it has got another title since. -/
theorem lookups_agree_iff (gs : List Registration) :
    (∀ n r, (ofRegistrations gs).pageById n = .ok r →
      ∃ cs, r.text = .ofList cs ∧
        ((ofRegistrations gs).pageByText (.str r.text) = .ok r ↔ Text.Utf8.size cs ≤ Title.maxBytes ∧
          ¬∃ p ∈ since r (registered gs), p.pageId ≠ r.pageId ∧ p.text = r.text)) ∧
    ∀ title r, (ofRegistrations gs).pageByText title = .ok r → r ∈ registered gs →
      ((ofRegistrations gs).pageById r.pageId = .ok r ↔
        ¬∃ p ∈ since r (registered gs), p.pageId = r.pageId ∧ p.text ≠ r.text) := by
  constructor
  · intro n r hid
    have hlast := pageById_eq_ok_iff.mp hid
    have hr : r ∈ registered gs := List.mem_of_find?_eq_some hlast
    have hn : r.pageId = n := by simpa using List.find?_some hlast
    subst hn
    have hids := (find?_eq_some_iff_since PageRef.pageId hr).mp hlast
    obtain ⟨text, htext⟩ := exists_normalize_of_mem_registered hr
    obtain ⟨-, cs, hcs⟩ := Title.isNormal_of_normalize htext
    rw [hcs] at htext
    have hagain := Title.normalize_idem_iff htext
    rw [← hcs] at hagain
    refine ⟨cs, hcs, ?_⟩
    rw [pageByText_eq_ok_iff hr, find?_eq_some_iff_since PageRef.text hr, Title.normalizeValue, hagain]
    refine and_congr Iff.rfl ⟨?_, ?_⟩
    · rintro htexts ⟨p, hp, -, hsame⟩
      exact htexts p hp hsame
    · intro hno p hp hsame
      exact hno ⟨p, hp, hids p hp, hsame⟩
  · intro title r htitle hr
    obtain ⟨-, hlast⟩ := (pageByText_eq_ok_iff hr).mp htitle
    have htexts := (find?_eq_some_iff_since PageRef.text hr).mp hlast
    rw [pageById_eq_ok_iff, find?_eq_some_iff_since PageRef.pageId hr]
    constructor
    · rintro hids ⟨p, hp, hsame, -⟩
      exact hids p hp hsame
    · intro hno p hp hsame
      exact hno ⟨p, hp, hsame, htexts p hp⟩

/-- A title that another page takes over, and one that no other page takes. -/
theorem lookups_agree_iff_taken :
    let gs : List Registration :=
      [⟨1, .str "main_page", 0, true⟩, ⟨2, .str "Main page", 0, true⟩, ⟨3, .str "other", 4, false⟩]
    (ofRegistrations gs).pageByText (.str "Main page") ≠ .ok ⟨1, 0, "Main page", true⟩ ∧
      (ofRegistrations gs).pageByText (.str "Other") = .ok ⟨3, 4, "Other", false⟩ ∧
      (ofRegistrations gs).pageById 2 = .ok ⟨2, 0, "Main page", true⟩ := by
  intro gs
  obtain ⟨hids, htitles⟩ := lookups_agree_iff gs
  have h1 : (ofRegistrations gs).pageById 1 = .ok ⟨1, 0, "Main page", true⟩ := rfl
  have h3 : (ofRegistrations gs).pageById 3 = .ok ⟨3, 4, "Other", false⟩ := rfl
  have h2 : (ofRegistrations gs).pageByText (.str "main page") = .ok ⟨2, 0, "Main page", true⟩ := rfl
  have htaken : ∃ p ∈ since ⟨1, 0, "Main page", true⟩ (registered gs), p.pageId ≠ 1 ∧ p.text = "Main page" := by
    decide
  obtain ⟨cs, -, htitle⟩ := hids 1 _ h1
  obtain ⟨cs', hcs', hother⟩ := hids 3 _ h3
  obtain rfl := Text.CodeText.ofList_injective hcs'
  refine ⟨fun h => (htitle.mp h).2 htaken, hother.mpr (by decide), ?_⟩
  exact (htitles _ _ h2 (by decide)).mpr (by decide)

/-- A page that gets a new title is still found under its old one. -/
theorem renamed_page_keeps_old_title :
    let gs : List Registration := [⟨1, .str "A", 0, true⟩, ⟨1, .str "B", 0, true⟩]
    let r : PageRef := ⟨1, 0, "A", true⟩
    r ∈ registered gs ∧ (ofRegistrations gs).pageByText (.str "A") = .ok r ∧
      (ofRegistrations gs).pageById r.pageId = .ok ⟨1, 0, "B", true⟩ := by
  decide

end PageInvalidation.TitleIndex
