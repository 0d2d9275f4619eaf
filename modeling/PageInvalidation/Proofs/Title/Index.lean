import PageInvalidation.Proofs.Outcome
import PageInvalidation.Proofs.Title.Normal
import PageInvalidation.Title.Index

/-! # Looking up titles

A lookup by title fails only for a text that can be no title or cannot be encoded, a lookup by number only for
a number that no page has. -/

namespace PageInvalidation

namespace Title

/-- A title that cannot be encoded: with its words separated by single spaces it has a lone surrogate and no illegal
character. -/
def IsUnencodable (text : Text.CodeText) : Prop :=
  Text.CodeText.isScalar (spaced text) = false ∧ ∀ p ∈ spaced text, p.satisfies isIllegal = false

/-- What is wrong with a title: it is malformed, or it cannot be encoded. -/
theorem normalize_eq_error {text : Text.CodeText} {e : Error} (h : normalize text = .error e) :
    e.isInvalid = true ∧ ¬IsUnencodable text ∨ (∃ u, e = .unwritable u) ∧ IsUnencodable text := by
  unfold normalize at h
  simp only at h
  split at h
  · rename_i hempty
    cases h
    refine .inl ⟨rfl, fun hno => ?_⟩
    rw [IsUnencodable, List.isEmpty_iff.mp hempty] at hno
    cases hno.1
  split at h
  · rename_i hillegal
    cases h
    refine .inl ⟨rfl, fun hno => ?_⟩
    obtain ⟨p, hp, hill⟩ := List.any_eq_true.mp hillegal
    exact absurd hill (by simp [hno.2 p hp])
  rename_i hlegal
  split at h
  · rename_i u hu
    cases h
    refine .inr ⟨⟨u, rfl⟩, Bool.eq_false_iff.mpr fun hscalar => ?_, by simpa using hlegal⟩
    obtain ⟨cs, hcs⟩ := Text.Utf8.exists_writable_iff.mpr hscalar
    cases hu.symm.trans hcs
  rename_i cs hcs
  split at h
  · cases h
    refine .inl ⟨rfl, fun hno => ?_⟩
    have hscalar := Text.Utf8.exists_writable_iff.mp ⟨cs, hcs⟩
    exact absurd hscalar (by simp [hno.1])
  · cases h

theorem not_isUnencodable_of_normalize {text r : Text.CodeText} (h : normalize text = .ok r) : ¬IsUnencodable text := by
  obtain ⟨-, -, ⟨cs, hcs, -⟩, -⟩ := normalize_eq_ok_iff.mp h
  rintro ⟨hno, -⟩
  rw [hcs, Text.CodeText.isScalar_ofList] at hno
  cases hno

end Title

namespace TitleIndex

variable {titles : TitleIndex}

theorem pageByText_eq_error {name : Value} {e : Title.Error} (h : titles.pageByText name = .error e) :
    e.isInvalid = true ∧ (∀ text, name = .str text → ¬Title.IsUnencodable text) ∨
      (∃ u, e = .unwritable u) ∧ ∃ text, name = .str text ∧ Title.IsUnencodable text := by
  unfold pageByText Title.normalizeValue at h
  cases name with
  | str text =>
    cases hn : Title.normalize text with
    | error e' =>
      simp only [hn, Except.map] at h
      cases h
      rcases Title.normalize_eq_error hn with ⟨he, hno⟩ | ⟨he, hno⟩
      · refine .inl ⟨he, ?_⟩
        rintro text' ⟨⟩
        exact hno
      · exact .inr ⟨he, text, rfl, hno⟩
    | ok text' =>
      simp only [hn, Except.map] at h
      cases h
  | _ =>
    cases h
    exact .inl ⟨rfl, nofun⟩

theorem not_isUnencodable_of_pageByText {text : Text.CodeText} {page : PageRef}
    (h : titles.pageByText (.str text) = .ok page) : ¬Title.IsUnencodable text := by
  obtain ⟨r, hr, -⟩ := Outcome.map_eq_ok.mp h
  exact Title.not_isUnencodable_of_normalize hr

/-- The page that a lookup finds for a title; none if the title is malformed. -/
def pageFor (titles : TitleIndex) (name : Value) : Except Title.Error (Option PageRef) :=
  match titles.pageByText name with
  | .ok page => .ok (some page)
  | .error e => if e.isInvalid then .ok none else .error e

/-- The pages that a lookup finds for some titles; malformed ones are passed over. -/
def pagesFor (titles : TitleIndex) : List Value → Except Title.Error (List PageRef)
  | [] => .ok []
  | name :: rest => do
    let page ← titles.pageFor name
    let pages ← titles.pagesFor rest
    return page.toList ++ pages

theorem pageFor_eq_ok_some {name : Value} {page : PageRef} :
    titles.pageFor name = .ok (some page) ↔ titles.pageByText name = .ok page := by
  unfold pageFor
  cases titles.pageByText name with
  | ok page' => simp
  | error e =>
    dsimp only
    split <;> simp

theorem mem_pagesFor {page : PageRef} : ∀ {names : List Value} {pages : List PageRef},
    titles.pagesFor names = .ok pages → (page ∈ pages ↔ ∃ name ∈ names, titles.pageByText name = .ok page)
  | [], _, h => by
    cases h
    simp
  | name :: names, pages, h => by
    obtain ⟨found, hfound, h⟩ := Outcome.bind_eq_ok.mp h
    obtain ⟨others, hothers, h⟩ := Outcome.bind_eq_ok.mp h
    cases h
    rw [List.mem_append, mem_pagesFor hothers, List.exists_mem_cons_iff, ← pageFor_eq_ok_some, hfound]
    simp [eq_comm]

theorem pageFor_cases (titles : TitleIndex) (name : Value) :
    (∃ page, titles.pageFor name = .ok page) ∧ (∀ text, name = .str text → ¬Title.IsUnencodable text) ∨
      (∃ u, titles.pageFor name = .error (.unwritable u)) ∧ ∃ text, name = .str text ∧ Title.IsUnencodable text := by
  unfold pageFor
  cases h : titles.pageByText name with
  | ok page =>
    refine .inl ⟨⟨_, rfl⟩, ?_⟩
    rintro text rfl
    exact not_isUnencodable_of_pageByText h
  | error e =>
    rcases pageByText_eq_error h with ⟨he, hno⟩ | ⟨⟨u, rfl⟩, hno⟩
    · exact .inl ⟨⟨_, if_pos he⟩, hno⟩
    · exact .inr ⟨⟨u, rfl⟩, hno⟩

/-- **What looking for pages under titles comes to**: it fails exactly if one of them cannot be encoded. -/
theorem pagesFor_cases (titles : TitleIndex) : ∀ names : List Value,
    (∃ pages, titles.pagesFor names = .ok pages) ∧ (∀ text, .str text ∈ names → ¬Title.IsUnencodable text) ∨
      (∃ u, titles.pagesFor names = .error (.unwritable u)) ∧ ∃ text, .str text ∈ names ∧ Title.IsUnencodable text
  | [] => .inl ⟨⟨[], rfl⟩, nofun⟩
  | name :: names => by
    rcases titles.pageFor_cases name with ⟨⟨page, hpage⟩, hname⟩ | ⟨⟨u, hu⟩, text, rfl, htext⟩
    · rcases titles.pagesFor_cases names with ⟨⟨pages, hpages⟩, hnames⟩ | ⟨⟨u, hu⟩, text, hmem, htext⟩
      · refine .inl ⟨⟨_, Outcome.bind_eq_ok.mpr ⟨page, hpage, Outcome.bind_eq_ok.mpr ⟨pages, hpages, rfl⟩⟩⟩, ?_⟩
        intro text hmem
        rcases List.mem_cons.mp hmem with h | hmem
        · exact hname text h.symm
        · exact hnames text hmem
      · refine .inr ⟨⟨u, ?_⟩, text, List.mem_cons_of_mem _ hmem, htext⟩
        exact Outcome.bind_eq_error.mpr (.inr ⟨page, hpage, Outcome.bind_eq_error.mpr (.inl hu)⟩)
    · exact .inr ⟨⟨u, Outcome.bind_eq_error.mpr (.inl hu)⟩, text, List.mem_cons_self, htext⟩

/-- A lookup by number finds a page, or tells the number that no page has. -/
def Tells (titles : TitleIndex) (n : Int) : Prop := (∃ page, titles.pageById n = .ok page) ∨ Text.IsShort n

theorem eq_ofMissing_of_pageById {n : Int} {e : Title.Error}
    (h : titles.pageById n = .error e) : e = .ofMissing n := by
  unfold pageById at h
  cases hp : titles.byId.find? n with
  | some page =>
    rw [hp] at h
    cases h
  | none =>
    rw [hp] at h
    exact (Except.error.inj h).symm

end TitleIndex

end PageInvalidation
