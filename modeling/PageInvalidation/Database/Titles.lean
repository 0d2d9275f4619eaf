import PageInvalidation.Database.Retry
import PageInvalidation.Title.Basic

/-! # Titles in a database

The table of pages: a row holds a page number, a namespace and a title in its database form, with
underscores for spaces. Titles are looked up in one namespace. -/

namespace PageInvalidation.Database.Titles

variable {σ : Type} [Host σ] [Journalled σ]

/-- The columns of a page. -/
def columns : String := "SELECT page_id, page_namespace, page_title FROM page "

/-- The query for the page with a number. -/
def byIdQuery : String := columns ++ "WHERE page_id = %s"

/-- The query for the page with a title. -/
def byTextQuery : String := columns ++ "WHERE page_namespace = %s AND page_title = %s"

/-- A text with one character in the place of another. -/
def exchanged (old new : Text.CodePoint) (s : Text.CodeText) : Text.CodeText :=
  s.map fun p => if p = old then new else p

/-- The database form of a title. -/
def toColumn (title : Text.CodeText) : Text.CodeText := exchanged (.scalar ' ') (.scalar '_') title

/-- The title of a database form. -/
def ofColumn (title : Text.CodeText) : Text.CodeText := exchanged (.scalar '_') (.scalar ' ') title

/-- Whether a result is a row that holds something. -/
def isRow : Value → Bool
  | .obj members => !members.isEmpty
  | .arr items => !items.isEmpty
  | .str s => !s.isEmpty
  | .int n => n != 0
  | .bool b => b
  | .float x => !x.isZero
  | .null => false

/-- An integer in a column. -/
def integerColumn (name : String) (row : Value) : Except Fault Int := do
  (integerOfValue (← (column name row).mapError .database)).mapError .number

/-- The title in a row. -/
def titleColumn (row : Value) : Except Error Text.CodeText := do
  match ← column "page_title" row with
  | .str s => return ofColumn s
  | v => .error (.titleNotText v.typeName)

/-- The page that a row holds. -/
def ofRow (row : Value) : Except Fault PageRef := do
  let pageId ← integerColumn "page_id" row
  let nameSpace ← integerColumn "page_namespace" row
  let text ← (titleColumn row).mapError .database
  return ⟨pageId, nameSpace, text, true⟩

/-- The page that a row holds, under a title that is known. -/
def ofRowNamed (title : Text.CodeText) (row : Value) : Except Fault PageRef := do
  let pageId ← integerColumn "page_id" row
  let nameSpace ← integerColumn "page_namespace" row
  return ⟨pageId, nameSpace, title, true⟩

/-- The page with a number. -/
def pageById (pageId : Int) : Act σ PageRef := do
  let row ← query byIdQuery (.arr [.int pageId]) .one
  if isRow row then Act.ofExcept id (ofRow row) else throw (.title (.ofMissing pageId))

/-- The page with a title in a namespace, or the place where it could be. -/
def pageByText (nameSpace : Int) (title : Value) : Act σ PageRef := do
  let title ← Act.ofExcept .title (Title.normalizeValue title)
  let row ← query byTextQuery (.arr [.int nameSpace, .str (toColumn title)]) .one
  if isRow row then Act.ofExcept id (ofRowNamed title row)
  else return ⟨0, nameSpace, title, false⟩

end PageInvalidation.Database.Titles
