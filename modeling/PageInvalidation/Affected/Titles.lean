import PageInvalidation.Affected.Sources
import PageInvalidation.Change.Aspects

/-! # Pages affected through their titles

An item's site link names a page. When the link changes, the pages it named before and names now depend
on the item although no usage may be recorded for them; they are given virtual usages. -/

namespace PageInvalidation.LinkedTitles

variable {σ : Type} [Journalled σ]

/-- Who writes the notes of this module. -/
def source : String := "change_propagation.virtual_usages"

/-- The change of the title in the change of a site link. -/
def titleChange (op : DiffOp) : DiffOp :=
  match op.toDiff? with
  | some d => (d.get? (.name ChangedAspects.nameKey)).getD op
  | none => op

/-- The titles that a change of a title names, the new one first. -/
def namesOf (op : DiffOp) : Except Diff.Error (List Value) :=
  match op with
  | .add new => .ok [new]
  | .remove old => .ok [old]
  | .change old new => .ok [new, old]
  | op => .error (.notLeaf op.typeName)

/-- The titles that a diff of site links names for a site. -/
def namesIn (site : Text.CodeText) (links : Diff) : Except Diff.Error (List Value) :=
  match links.get? (.name site) with
  | none => .ok []
  | some op => namesOf (titleChange op)

/-- The note about a title that can name no page. -/
def skipNote (name : Value) (e : Title.Error) : Text.CodeText :=
  Text.CodeText.ofString <|
    "skipping invalid title from site link diff title=" ++ name.displayed ++ " error=" ++ e.message

/-- The page with a title; none, with a note, if the title can name none. -/
def pageNamed (sources : Sources σ) (name : Value) : Act σ (Option PageRef) :=
  tryCatch (some <$> sources.pageByText name) fun fault =>
    match fault with
    | .title e =>
      if e.isInvalid then do
        Act.note .debug source (skipNote name e)
        return none
      else throw fault
    | _ => throw fault

/-- The pages with the given titles. -/
def pagesNamed (sources : Sources σ) : List Value → Act σ (List PageRef)
  | [] => pure []
  | name :: rest => do
    let page ← pageNamed sources name
    let pages ← pagesNamed sources rest
    return page.toList ++ pages

/-- Records by page number. -/
abbrev Records := Keyed PageUsages.pageId

/-- The note about a page that is not stored. -/
def idleNote (page : PageRef) : Text.CodeText :=
  Text.CodeText.ofString "article id for " ++ page.fullText ++
    Text.CodeText.ofString " is 0; no virtual usage"

/-- Adds the virtual record of a page; a page that is not stored gets none. -/
def addVirtual (usages : List Usage) (records : Records) (page : PageRef) : Act σ Records :=
  if page.articleId = 0 then do
    Act.note .debug source (idleNote page)
    return records
  else do
    let pageId ← Act.ofExcept .usage (PageUsages.pageIdOfInt page.articleId)
    return records.put (.ofList pageId usages)

/-- The virtual records of pages: each uses the entity under the given keys. -/
def virtualRecords (pages : List PageRef) (entity : EntityId) (keys : List Value) : Act σ Records := do
  let usages ← Act.ofExcept .usage (keys.mapM (Usage.ofKeyValue entity))
  pages.foldlM (addVirtual usages) Keyed.empty

/-- The virtual records that an item's change makes at a site. -/
def ofChange (sources : Sources σ) (site : Text.CodeText) (c : EntityChange) (keys : List Value) :
    Act σ Records := do
  let links ← Act.ofExcept .diff c.siteLinks
  let names ← Act.ofExcept .diff (namesIn site links)
  let pages ← pagesNamed sources names
  virtualRecords pages c.entity keys

/-- The keys of virtual usages unless others are asked for. -/
def defaultKeys : List Value := [.str Aspect.siteLink.code]

end PageInvalidation.LinkedTitles
