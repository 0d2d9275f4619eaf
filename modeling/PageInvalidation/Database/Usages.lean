import PageInvalidation.Database.Retry
import PageInvalidation.Usage.Filter
import PageInvalidation.Usage.Page

/-! # Usages in a database

The table of usages: a row holds a page number, an entity and a key. The lookups ask for the same pages
that the store in memory lists. -/

namespace PageInvalidation.Database.Usages

variable {σ : Type} [Host σ] [Journalled σ]

/-! ### Rows -/

/-- The rows of a result. -/
def rowsOf : Value → List Value
  | .arr rows => rows
  | _ => []

/-- The page number and the usage that a row holds. -/
def ofRow (row : Value) : Except Fault (Int × Usage) := do
  let pageId ← (integerOfValue (← (column "eu_page_id" row).mapError .database)).mapError .number
  let entity ← (EntityId.ofValue (← (column "eu_entity_id" row).mapError .database)).mapError .entity
  let key ← (column "eu_aspect" row).mapError .database
  let usage ← (Usage.ofKeyValue entity key).mapError .usage
  return (pageId, usage)

/-- Records by page number, in the order of the rows. -/
abbrev Records := Keyed PageUsages.pageId

/-- Adds the usage of a row to the record of its page. -/
def addRow (records : Records) (row : Int × Usage) : Except Fault Records := do
  let pageId ← (PageUsages.pageIdOfInt row.1).mapError .usage
  return records.put (((records.find? pageId).getD (.empty pageId)).add row.2)

/-- The records of the pages that rows speak of. -/
def records (rows : List Value) : Except Fault (List PageUsages) := do
  let usages ← rows.mapM ofRow
  let records ← usages.foldlM addRow Keyed.empty
  return records.toList

/-! ### Queries -/

/-- Texts in ascending order, each once. -/
def sorted (texts : List Text.CodeText) : List Text.CodeText :=
  (distinct texts).mergeSort fun a b => a ≤ b

/-- A list of texts as a parameter. -/
def textList (texts : List Text.CodeText) : Value := .arr (texts.map .str)

/-- The patterns that match the modified keys of aspects; without any, one that matches no key. -/
def patterns (aspects : List Aspect) : List Text.CodeText :=
  match sorted (aspects.map fun a => a.code ++ Text.CodeText.ofString ".%") with
  | [] => [[]]
  | patterns => patterns

/-- The condition on keys, left out when there is no filter. -/
def keyClause (filter : UsageFilter) : String :=
  if filter.exact.isEmpty then ""
  else "AND (eu_aspect = ANY(%(aspects)s) OR eu_aspect LIKE ANY(%(patterns)s))"

/-- The query for the pages that use some entities. -/
def usingQuery (filter : UsageFilter) : String :=
  "SELECT eu_page_id, eu_entity_id, eu_aspect FROM entity_usage " ++
    "WHERE eu_entity_id = ANY(%(entities)s) AND eu_page_id IN ( " ++
    "SELECT eu_page_id FROM entity_usage WHERE eu_entity_id = ANY(%(entities)s) " ++
    keyClause filter ++ " ) ORDER BY eu_page_id ASC"

/-- The parameters of the query for the pages that use some entities. -/
def usingParams (entities : List Text.CodeText) (filter : UsageFilter) : Value :=
  .obj (("entities", textList entities) ::
    if filter.exact.isEmpty then []
    else [("aspects", textList (sorted (filter.exact.map AspectKey.text))),
      ("patterns", textList (patterns filter.anyModifier))])

/-- The records of the pages that use some entities under a filter, which is needed only if there are
entities. -/
def pagesUsingFilter (entities : List EntityId) (filter : Except Usage.Error UsageFilter) :
    Act σ (List PageUsages) := do
  let serializations := sorted (entities.map EntityId.serialization)
  if serializations.isEmpty then return []
  let filter ← Act.ofExcept .usage filter
  let rows ← query (usingQuery filter) (usingParams serializations filter) .all
  Act.ofExcept id (records (rowsOf rows))

/-- The records of the pages that use some entities under some keys. -/
def pagesUsing (entities : List EntityId) (keys : List AspectKey) : Act σ (List PageUsages) :=
  pagesUsingFilter entities (.ok (.ofKeys keys))

/-- The records of the pages that use some entities under the keys that values write. -/
def pagesUsingValues (entities : List EntityId) (keys : List Value) : Act σ (List PageUsages) :=
  pagesUsingFilter entities (UsageFilter.ofValues keys)

/-- The query for the usages of a page. -/
def pageQuery : String :=
  "SELECT eu_page_id, eu_entity_id, eu_aspect FROM entity_usage WHERE eu_page_id = %s"

/-- The usages of a page, row by row. -/
def usagesOf (pageId : Int) : Act σ (List Usage) := do
  let rows ← query pageQuery (.arr [.int pageId]) .all
  let usages ← Act.ofExcept id ((rowsOf rows).mapM ofRow)
  return usages.map Prod.snd

/-- The query for the entities that are used. -/
def usedQuery : String :=
  "SELECT DISTINCT eu_entity_id FROM entity_usage WHERE eu_entity_id = ANY(%s)"

/-- The entity that a row names, if it is a text. -/
def usedOfRow (row : Value) : Except Error (Option Text.CodeText) := do
  match ← column "eu_entity_id" row with
  | .str s => return some s
  | .arr items => .error (.unhashable (Json.typeName (.arr items)))
  | .obj members => .error (.unhashable (Json.typeName (.obj members)))
  | _ => return none

/-- The entities that no page uses. -/
def unused (entities : List EntityId) : Act σ (List EntityId) := do
  if entities.isEmpty then return []
  let rows ← query usedQuery (.arr [textList (entities.map EntityId.serialization)]) .all
  let used ← Act.ofExcept .database ((rowsOf rows).mapM usedOfRow)
  return entities.filter fun e => some e.serialization ∉ used

end PageInvalidation.Database.Usages
