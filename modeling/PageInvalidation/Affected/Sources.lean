import PageInvalidation.Journal
import PageInvalidation.Title.Index
import PageInvalidation.Usage.Store

/-! # Sources of usages and titles

Where affected pages are looked up: who uses an entity, and which page has a number or a title. The
sources may be in memory or behind a database; a lookup is a computation over the state they live in. -/

namespace PageInvalidation

/-- Sources of usages and titles over a state. -/
structure Sources (σ : Type) where
  /-- The pages that use some entities under some keys. -/
  pagesUsing : List EntityId → List AspectKey → Act σ (List PageUsages)
  /-- The page with a number. -/
  pageById : Int → Act σ PageRef
  /-- The page with a title, or the place where it could be. -/
  pageByText : Value → Act σ PageRef

/-- Sources in memory. -/
def Sources.ofMemory {σ : Type} (store : UsageStore) (titles : TitleIndex) : Sources σ where
  pagesUsing entities keys := Act.ofExcept .usage (store.pagesUsing entities keys)
  pageById pageId := Act.ofExcept .title (titles.pageById pageId)
  pageByText title := Act.ofExcept .title (titles.pageByText title)

end PageInvalidation
