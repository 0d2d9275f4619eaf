import PageInvalidation.Json.Display
import PageInvalidation.Number
import PageInvalidation.Text.Blank
import PageInvalidation.Text.UpperCase
import PageInvalidation.Text.Utf8

/-! # Titles

The normal form of a title: underscores are blanks, words are separated by single spaces, the first
character is in upper case. Some characters can be in no title, and a title has at most 255 bytes. -/

namespace PageInvalidation

/-- A page, or the place where a page could be. -/
structure PageRef where
  pageId : Int
  nameSpace : Int
  text : Text.CodeText
  /-- Whether the page is stored. -/
  stored : Bool
  deriving DecidableEq, Repr

namespace PageRef

/-- Whether the page exists. -/
def doesExist (p : PageRef) : Bool := p.stored && 0 < p.pageId

/-- The number of the page if it is stored, else 0. -/
def articleId (p : PageRef) : Int := if p.stored then p.pageId else 0

/-- The title in full. -/
def fullText (p : PageRef) : Text.CodeText := p.text

end PageRef

namespace Title

/-- Why there is no such title or page. -/
inductive Error where
  /-- A title that is no text. -/
  | notText (typeName : String)
  | empty
  | illegal (text : Text.CodeText)
  /-- A title that cannot be encoded. -/
  | unwritable (u : Text.Utf8.Unwritable)
  | tooLong (text : Text.CodeText)
  /-- No page with a number. -/
  | notFound (pageId : Int)
  /-- No page with a number that has too many digits to be told. -/
  | numberUnwritable
  deriving DecidableEq, Repr

/-- The most bytes that a title may have. -/
def maxBytes : Nat := 255

/-- The words for an error. -/
def Error.message : Error → String
  | .notText typeName => "title must be a string, got " ++ typeName
  | .empty => "title is empty"
  | .illegal text => "title contains illegal characters: " ++ Text.quoted text
  | .unwritable u => u.message
  | .tooLong text =>
    "title exceeds " ++ toString maxBytes ++ " bytes: " ++ Text.quoted (text.take 32) ++ "..."
  | .notFound pageId => "no page with id " ++ toString pageId
  | .numberUnwritable => NumberError.unwritable.message

/-- Whether the error says that a title is malformed. -/
def Error.isInvalid : Error → Bool
  | .notText _ | .empty | .illegal _ | .tooLong _ => true
  | .unwritable _ | .notFound _ | .numberUnwritable => false

/-- What is wrong when there is no page with a number. -/
def Error.ofMissing (pageId : Int) : Error :=
  if Text.IsShort pageId then .notFound pageId else .numberUnwritable

/-- Whether a character can be in no title. -/
def isIllegal (c : Char) : Bool :=
  c ∈ ['#', '<', '>', '[', ']', '|', '\x7b', '\x7d', '\x7f'] || c.toNat < 0x20

/-- A text with its words separated by single spaces; underscores separate words too. -/
def spaced (s : Text.CodeText) : Text.CodeText :=
  List.intercalate [.scalar ' ']
    (Text.words (·.satisfies Text.isBlank) (s.map fun p => if p = .scalar '_' then .scalar ' ' else p))

/-- A text with its first character in upper case. -/
def capitalised : Text.CodeText → Text.CodeText
  | [] => []
  | p :: rest => Text.upperPoint p ++ rest

/-- The normal form of a title. -/
def normalize (text : Text.CodeText) : Except Error Text.CodeText :=
  let s := spaced text
  if s.isEmpty then .error .empty
  else if s.any (·.satisfies isIllegal) then .error (.illegal text)
  else
    match Text.Utf8.writable s with
    | .error u => .error (.unwritable u)
    | .ok chars => if maxBytes < Text.Utf8.size chars then .error (.tooLong text) else .ok (capitalised s)

/-- The normal form of a value that should be a title. -/
def normalizeValue : Value → Except Error Text.CodeText
  | .str s => normalize s
  | v => .error (.notText v.typeName)

/-- The main namespace. -/
def mainNamespace : Int := 0

end Title

end PageInvalidation
