import PageInvalidation.Json.Display
import PageInvalidation.Text.Blank
import PageInvalidation.Text.UpperCase

/-! # Entity identifiers

An entity is known by its serialization, a text that is not blank. Serializations of the usual form,
a capital letter and a number without leading zeros, are what `EntityId.parse` accepts, in either case
and with blanks around. -/

namespace PageInvalidation

/-- The serialization of an entity's identifier. -/
structure EntityId where
  serialization : Text.CodeText
  not_blank : Text.trim (·.satisfies Text.isBlank) serialization ≠ []
  deriving DecidableEq, Repr

namespace EntityId

/-- Why there is no such identifier. -/
inductive Error where
  /-- A value that is no text or a blank one. -/
  | blank
  /-- A text that is not of the usual form. -/
  | malformed (text : Text.CodeText)
  /-- A value that cannot be read because it is no text. -/
  | unreadable (typeName : String)
  deriving DecidableEq, Repr

/-- The words for an error. -/
def Error.message : Error → String
  | .blank => "entity id serialization must be a non-empty string"
  | .malformed text => "invalid entity id: " ++ Text.quoted text
  | .unreadable typeName => Text.quoted typeName ++ " object has no attribute 'strip'"

/-- The identifier with a serialization. -/
def ofText (s : Text.CodeText) : Except Error EntityId :=
  if h : Text.trim (·.satisfies Text.isBlank) s ≠ [] then .ok ⟨s, h⟩ else .error .blank

/-- The identifier with a value as serialization. -/
def ofValue : Value → Except Error EntityId
  | .str s => ofText s
  | _ => .error .blank

/-- A text in the spelling of serializations: without blanks around, in upper case. -/
def canonical (s : Text.CodeText) : Text.CodeText := Text.upper (Text.trim (·.satisfies Text.isBlank) s)

/-- Whether a text is a capital letter and a number without leading zeros. -/
def isUsual : Text.CodeText → Bool
  | .scalar letter :: .scalar first :: rest =>
    'A' ≤ letter && letter ≤ 'Z' && '1' ≤ first && first ≤ '9' && rest.all (·.satisfies Char.isDigit)
  | _ => false

/-- Whether a text is of the usual form as a line, which a line feed may end. -/
def isUsualLine (s : Text.CodeText) : Bool :=
  isUsual s || s.getLast? == some (.scalar '\n') && isUsual s.dropLast

/-- The identifier that a text writes in the usual form. -/
def parse (s : Text.CodeText) : Except Error EntityId :=
  let serialization := canonical s
  if isUsualLine serialization then ofText serialization else .error (.malformed s)

/-- The identifier that a value writes in the usual form. -/
def parseValue : Value → Except Error EntityId
  | .str s => parse s
  | v => .error (.unreadable v.typeName)

/-- What an entity is, by the first letter of its serialization. -/
def entityType (e : EntityId) : String :=
  match e.serialization with
  | .scalar c :: _ =>
    match Text.upperChar c with
    | ['Q'] => "item"
    | ['P'] => "property"
    | ['L'] => "lexeme"
    | ['M'] => "mediainfo"
    | _ => "unknown"
  | _ => "unknown"

/-- Whether the entity is an item. -/
def isItem (e : EntityId) : Bool := e.entityType == "item"

end EntityId

end PageInvalidation
