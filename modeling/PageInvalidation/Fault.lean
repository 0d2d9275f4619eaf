import PageInvalidation.Change.Basic
import PageInvalidation.Database.Basic
import PageInvalidation.Dispatch.Error
import PageInvalidation.Json.Number
import PageInvalidation.Title.Basic
import PageInvalidation.Usage.Basic
import PageInvalidation.Wire.Issue
import PageInvalidation.Wire.Writing

/-! # Faults

Everything that can go wrong, in one type, for computations that join several parts of the library. A
fault is known by its kind, a word that dead-letter records carry, and its message. -/

namespace PageInvalidation

/-- The parts of a finder's setup that can be of the wrong type. -/
inductive SetupError where
  | siteNotText
  | languageNotText
  | checkNotBool
  deriving DecidableEq, Repr

/-- The words for an error. -/
def SetupError.message : SetupError → String
  | .siteNotText => "site_id must be a string"
  | .languageNotText => "content_language_code must be a string"
  | .checkNotBool => "check_page_existence must be a boolean"

/-- Anything that can go wrong. -/
inductive Fault where
  | key (e : AspectKey.Error)
  | entity (e : EntityId.Error)
  | usage (e : Usage.Error)
  | diff (e : Diff.Error)
  | change (e : EntityChange.Error)
  | instant (e : Instant.Error)
  | title (e : Title.Error)
  | number (e : NumberError)
  | database (e : Database.Error)
  | setup (e : SetupError)
  | invalid (issues : List Wire.Issue)
  | unwritten (e : Wire.WriteError)
  | dispatch (e : Dispatch.Error)

namespace Fault

/-- The message of a fault. A list of issues has no message; it speaks for itself. -/
def message : Fault → String
  | .key e => e.message
  | .entity e => e.message
  | .usage e => e.message
  | .diff e => e.message
  | .change e => e.message
  | .instant e => e.message
  | .title e => e.message
  | .number e => e.message
  | .database e => e.message
  | .setup e => e.message
  | .invalid _ => ""
  | .unwritten e => e.message
  | .dispatch e => e.message

/-- The kind of an identifier's error. -/
def entityKind : EntityId.Error → String
  | .blank | .malformed _ => "ValueError"
  | .unreadable _ => "AttributeError"

/-- The kind of a usage's error. -/
def usageKind : Usage.Error → String
  | .key _ => "AspectKeyFormatError"
  | .entity e => entityKind e
  | .noEntity | .noAspect | .notUsage _ | .unhashable _ => "TypeError"
  | .badPageId _ => "ValueError"
  | .noIdentity _ => "AttributeError"

/-- The kind of a diff's error. -/
def diffKind : Diff.Error → String
  | .notChange _ _ | .unhashable _ => "TypeError"
  | .unknownKey _ => "KeyError"
  | .notNested _ _ | .notLeaf _ | .notWritable _ => "UnknownDiffOpError"
  | .noView _ _ => "AttributeError"

/-- The kind of an instant's error. -/
def instantKind : Instant.Error → String
  | .quotientTooLarge | .secondsTooLarge => "OverflowError"
  | .yearTooLarge => "OSError"
  | _ => "ValueError"

/-- The kind of a title's error. -/
def titleKind : Title.Error → String
  | .notText _ | .empty | .illegal _ | .tooLong _ => "InvalidTitleError"
  | .unwritable _ => "UnicodeEncodeError"
  | .notFound _ => "PageNotFoundError"
  | .numberUnwritable => "ValueError"

/-- The kind of a number's error. -/
def numberKind : NumberError → String
  | .infinite | .tooLarge | .quotientTooLarge => "OverflowError"
  | .zeroDivisor _ => "ZeroDivisionError"
  | .notNumber _ => "TypeError"
  | _ => "ValueError"

/-- The kind of a database's failure. -/
def failureKind : Database.FailureKind → String
  | .operational => "OperationalError"
  | .interface => "InterfaceError"
  | .programming => "ProgrammingError"
  | .integrity => "IntegrityError"

/-- The kind of a pause's error. -/
def pauseKind : Database.PauseError → String
  | .tooLong => "OverflowError"
  | .negative | .notNumber => "ValueError"

/-- The kind of a query's error. -/
def databaseKind : Database.Error → String
  | .failure f => failureKind f.kind
  | .noAttempts => "RuntimeError"
  | .pause e => pauseKind e
  | .missingColumn _ => "KeyError"
  | .notRow _ | .unhashable _ => "TypeError"
  | .titleNotText _ => "AttributeError"

/-- The kind of a dispatcher's error. -/
def dispatchKind : Dispatch.Error → String
  | .undelivered _ => "EventDeliveryError"
  | .notProduced _ => "BufferError"
  | .notConsumed _ => "RuntimeError"
  | .undecodable _ => "UnicodeDecodeError"
  | .unwritable _ => "UnicodeEncodeError"
  | .tooDeep _ => "RecursionError"
  | .negativeCount => "ValueError"

/-- The kind of a fault. -/
def kind : Fault → String
  | .key _ => "AspectKeyFormatError"
  | .entity e => entityKind e
  | .usage e => usageKind e
  | .diff e => diffKind e
  | .change (.unknownAction _) => "ValueError"
  | .change .notEntityDiff => "TypeError"
  | .change (.missingPart _) => "AttributeError"
  | .instant e => instantKind e
  | .title e => titleKind e
  | .number e => numberKind e
  | .database e => databaseKind e
  | .setup _ => "TypeError"
  | .invalid _ => "ValidationError"
  | .unwritten _ => "PydanticSerializationError"
  | .dispatch e => dispatchKind e

/-- Whether trying again may help. -/
def isTransient : Fault → Bool
  | .database (.failure f) => f.isTransient
  | _ => false

end Fault

end PageInvalidation
