import PageInvalidation.Affected.Titles
import PageInvalidation.Usage.Narrowing

/-! # Affected pages

The pages that a change affects, and how. The keys that the change touches are looked up together with
usages of everything; what each page uses is narrowed to what the change touches; pages named by a
changed site link of the own site are added; pages that cannot be found, or do not exist where that
matters, are left out. -/

namespace PageInvalidation

/-- What a client knows about itself. -/
structure Finder where
  site : Text.CodeText
  language : Text.CodeText
  /-- Whether pages that do not exist are left out. -/
  checkExistence : Bool
  deriving Repr

namespace Finder

variable {σ : Type} [Journalled σ]

/-- Who writes the notes of this module. -/
def source : String := "change_propagation.finder"

/-- The finder with given values as its parts. -/
def ofValues (site language checkExistence : Value) : Except SetupError Finder :=
  match site, language, checkExistence with
  | .str site, .str language, .bool check => .ok ⟨site, language, check⟩
  | .str _, .str _, _ => .error .checkNotBool
  | .str _, _, _ => .error .languageNotText
  | _, _, _ => .error .siteNotText

/-- The keys that a change touches. -/
def changedAspects (f : Finder) (c : EntityChange) : Except Fault (List AspectKey) :=
  ChangedAspects.ofChange f.site c

/-- The keys to look up for the keys that a change touches: these, and that of everything. -/
def lookupKeys (touched : List AspectKey) : List AspectKey := distinct (touched ++ [.bare .all])

/-- The records of pages narrowed to the keys touched, without those that are left empty. -/
def narrowed (entity : EntityId) (touched : List AspectKey) (pages : List PageUsages) :
    List PageUsages :=
  (pages.map (Narrowing.empty.set entity touched).apply).filter fun p => !p.isEmpty

/-- Adds a record to those collected so far; usages of a known page join its record. -/
def merge (records : LinkedTitles.Records) (p : PageUsages) : LinkedTitles.Records :=
  records.put (((records.find? p.pageId).getD (.empty p.pageId)).addAll p.toList)

/-- One record for each page of the lists. -/
def mergeAll (lists : List (List PageUsages)) : List PageUsages :=
  (lists.flatten.foldl merge Keyed.empty).toList

/-- The records of the pages that a change affects, found or not. -/
def candidates (f : Finder) (sources : Sources σ) (c : EntityChange) : Act σ (List PageUsages) := do
  let touched ← Act.ofExcept id (f.changedAspects c)
  let used ← sources.pagesUsing [c.entity] (lookupKeys touched)
  let pages := narrowed c.entity touched used
  if c.isItem && AspectKey.bare .title ∈ touched then
    let virtual ← LinkedTitles.ofChange sources f.site c LinkedTitles.defaultKeys
    return mergeAll [pages, virtual.toList]
  else return pages

/-- The note about a page that is not found. -/
def missingNote? (pageId : Int) : Option Text.CodeText := do
  return Text.CodeText.ofString ("page not found page_id=" ++ (← Text.decimal? pageId) ++ "; skipping")

/-- The note about a page that does not exist. -/
def absentNote? (pageId : Int) (page : PageRef) : Option Text.CodeText := do
  return Text.CodeText.ofString ("page does not exist page_id=" ++ (← Text.decimal? pageId) ++ " title=") ++
    page.fullText ++ Text.CodeText.ofString "; skipping"

/-- Whether a page stays: it is found and, where that matters, exists. -/
def keeps (f : Finder) (sources : Sources σ) (p : PageUsages) : Act σ Bool := do
  let found ← tryCatch (some <$> sources.pageById p.pageId) fun fault =>
    match fault with
    | .title (.notFound _) => return none
    | _ => throw fault
  match found with
  | none =>
    Act.noteIf .debug source (missingNote? p.pageId)
    return false
  | some page =>
    if f.checkExistence && !page.doesExist then
      Act.noteIf .debug source (absentNote? p.pageId page)
      return false
    else return true

/-- The records of pages that stay. -/
def kept (f : Finder) (sources : Sources σ) : List PageUsages → Act σ (List PageUsages)
  | [] => pure []
  | p :: rest => do
    let keep ← f.keeps sources p
    let others ← kept f sources rest
    return if keep then p :: others else others

/-- The records of the pages that an entity's change affects. -/
def affectedBy (f : Finder) (sources : Sources σ) (c : EntityChange) : Act σ (List PageUsages) := do
  let pages ← f.kept sources (← f.candidates sources c)
  let records : LinkedTitles.Records := Keyed.ofListLast pages
  return records.toList

/-- The records of the pages that a change affects; one that is not of an entity affects none. -/
def affected (f : Finder) (sources : Sources σ) : Change → Act σ (List PageUsages)
  | .unrecognised => pure []
  | .entity c => f.affectedBy sources c

end Finder

end PageInvalidation
