import PageInvalidation.Usage.Filter
import PageInvalidation.Usage.Page

/-! # The usage store

Which page uses what, in memory. Pages are known by integers; a negative one can be recorded but makes
a lookup that reaches it fail, for there is no page record with such a number. -/

namespace PageInvalidation

/-- The usages recorded for a page number. -/
abbrev UsageStore.Page := Int × UsageSet

/-- The usages of all pages. -/
structure UsageStore where
  pages : Keyed (Prod.fst : UsageStore.Page → Int)

namespace UsageStore

/-- No page has usages. -/
def empty : UsageStore := ⟨Keyed.empty⟩

/-- The usages recorded for a page. -/
def usages (s : UsageStore) (page : Int) : UsageSet :=
  match s.pages.find? page with
  | some entry => entry.2
  | none => Keyed.empty

/-- Records usages of a page beside those that are there. -/
def add (s : UsageStore) (page : Int) (us : List Usage) : UsageStore :=
  ⟨s.pages.put (page, (s.usages page).insertAll us)⟩

/-- The usages among entries, up to the first entry of another kind. -/
def spanUsages : List Entry → List Usage × Option Value
  | [] => ([], none)
  | .foreign v :: _ => ([], some v)
  | .usage u :: rest => let (us, v) := spanUsages rest; (u :: us, v)

/-- What a stop at an entry of another kind means. -/
def stopped : Option Value → Except Usage.Error Unit
  | none => .ok ()
  | some v => .error (.noIdentity v)

/-- Records entries of a page up to the first of another kind; those before it stay. -/
def addEntries (s : UsageStore) (page : Int) (entries : List Entry) :
    UsageStore × Except Usage.Error Unit :=
  let (us, stop) := spanUsages entries
  (s.add page us, stopped stop)

/-- The usages of a page that are not in a fresh set. -/
def dropped (s : UsageStore) (page : Int) (fresh : UsageSet) : List Usage :=
  (s.usages page).toList.filter fun u => !fresh.contains u.identity

/-- Records exactly the given usages for a page. -/
def replace (s : UsageStore) (page : Int) (us : List Usage) : UsageStore :=
  let fresh : UsageSet := Keyed.ofListLast us
  if fresh.isEmpty then ⟨s.pages.erase page⟩ else ⟨s.pages.put (page, fresh)⟩

/-- Records exactly the given entries for a page, and gives the usages that are no longer recorded. An
entry of another kind leaves everything as it was. -/
def replaceEntries (s : UsageStore) (page : Int) (entries : List Entry) :
    UsageStore × Except Usage.Error (List Usage) :=
  match spanUsages entries with
  | (us, none) => (s.replace page us, .ok (s.dropped page (Keyed.ofListLast us)))
  | (_, some v) => (s, .error (.noIdentity v))

/-- Forgets a page. -/
def prune (s : UsageStore) (page : Int) : UsageStore := ⟨s.pages.erase page⟩

/-- Forgets a page, and gives the usages that were recorded for it. -/
def forget (s : UsageStore) (page : Int) : UsageStore × List Usage :=
  (s.prune page, (s.usages page).toList)

/-- The pages in ascending order. -/
def sortedPages (s : UsageStore) : List Page := s.pages.toList.mergeSort fun a b => a.1 ≤ b.1

/-- The usages of a page by some entities. -/
def wanted (entities : List EntityId) (page : Page) : List Usage :=
  page.2.toList.filter fun u => u.entity ∈ entities

/-- Whether a page with some wanted usages is listed under a filter; without keys every one is. -/
def listed (keys : List AspectKey) (us : List Usage) : Bool :=
  !us.isEmpty && (keys.isEmpty || us.any fun u => (UsageFilter.ofKeys keys).admits u.key)

/-- The record of a page with its wanted usages. -/
def record (entities : List EntityId) (page : Page) : Except Usage.Error PageUsages :=
  (PageUsages.pageIdOfInt page.1).map (.ofList · (wanted entities page))

/-- The records of the pages that use some entities under some keys, each with all its usages of these
entities, by ascending page number. -/
def pagesUsing (s : UsageStore) (entities : List EntityId) (keys : List AspectKey) :
    Except Usage.Error (List PageUsages) :=
  (s.sortedPages.filter fun page => listed keys (wanted entities page)).mapM (record entities)

/-- The records of the pages that use some entities under the keys that values write. -/
def pagesUsingValues (s : UsageStore) (entities : List EntityId) (keys : List Value) :
    Except Usage.Error (List PageUsages) := do
  s.pagesUsing entities (← (keys.mapM AspectKey.ofValue).mapError .key)

/-- Whether some page uses an entity. -/
def uses (s : UsageStore) (e : EntityId) : Bool :=
  s.pages.toList.any fun page => page.2.toList.any fun u => u.entity = e

/-- The entities that no page uses. -/
def unused (s : UsageStore) (entities : List EntityId) : List EntityId :=
  entities.filter fun e => !s.uses e

end UsageStore

end PageInvalidation
