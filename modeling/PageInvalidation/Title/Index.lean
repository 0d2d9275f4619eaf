import PageInvalidation.Keyed
import PageInvalidation.Title.Basic

/-! # The title index

Pages by number and by title, in memory. Registering a page under a number or a title that is taken
takes it over. -/

namespace PageInvalidation

/-- Pages by number and by title. -/
structure TitleIndex where
  byId : Keyed PageRef.pageId
  byText : Keyed PageRef.text

namespace TitleIndex

/-- No page is registered. -/
def empty : TitleIndex := ⟨Keyed.empty, Keyed.empty⟩

/-- Registers a page. -/
def insert (t : TitleIndex) (p : PageRef) : TitleIndex := ⟨t.byId.put p, t.byText.put p⟩

/-- Registers a page under the normal form of a title. -/
def add (t : TitleIndex) (pageId : Int) (title : Value) (nameSpace : Int) (stored : Bool) :
    Except Title.Error (TitleIndex × PageRef) :=
  (Title.normalizeValue title).map fun text =>
    let page := ⟨pageId, nameSpace, text, stored⟩
    (t.insert page, page)

/-- The page with a number. -/
def pageById (t : TitleIndex) (pageId : Int) : Except Title.Error PageRef :=
  match t.byId.find? pageId with
  | some page => .ok page
  | none => .error (.ofMissing pageId)

/-- The page with a title, or the place where it could be. -/
def pageByText (t : TitleIndex) (title : Value) : Except Title.Error PageRef :=
  (Title.normalizeValue title).map fun text =>
    (t.byText.find? text).getD ⟨0, Title.mainNamespace, text, false⟩

end TitleIndex

end PageInvalidation
