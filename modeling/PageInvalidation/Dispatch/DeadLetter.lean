import PageInvalidation.Fault
import PageInvalidation.Json.Reader
import PageInvalidation.Json.Writer
import PageInvalidation.Text.Utf8

/-! # Dead letters

A message that cannot be handled is published again as a dead letter, with where it came from, what went
wrong and its body as a text. It is filed under the identifier that its body gives, as far as one can be
made out. How deep the body may nest for that is up to the stack; a change nests no deeper than the reader of
messages lets it (`Wire.maxDepth`), which is no matter for the stack. -/

namespace PageInvalidation.Dispatch

/-- A message as it was consumed. -/
structure Message where
  body : Option (List UInt8)
  topic : String
  partition : Int
  offset : Int
  /-- Whether it only reports that something went wrong. -/
  isReport : Bool
  deriving DecidableEq, Repr

namespace Message

/-- The body; a message without one has an empty one. -/
def bytes (m : Message) : List UInt8 := m.body.getD []

/-- The body that is handled: an empty one stands for an empty object. -/
def handledBytes (m : Message) : List UInt8 :=
  if m.bytes.isEmpty then Text.Utf8.encode "\x7b\x7d".toList else m.bytes

end Message

/-- A message that cannot be handled. -/
structure DeadLetter where
  failedAt : Int
  topic : String
  partition : Int
  offset : Int
  changeId : String
  fault : Fault
  rawValue : String

namespace DeadLetter

/-- The identifier of a body that gives none. -/
def unknownId : Text.CodeText := Text.CodeText.ofString "unknown"

/-- The identifier that a parsed body gives. -/
def idOfValue : Value → Text.CodeText
  | .obj members =>
    match Json.member? "id" members with
    | some v => v.shown
    | none => unknownId
  | _ => unknownId

/-- The identifier that a body gives, where the stack has room for `depth` containers inside each other. One
that nests deeper is an error, any other that cannot be read gives none. -/
def idOf (depth : Nat) (bytes : List UInt8) : Except Error Text.CodeText :=
  match Text.Utf8.decode bytes with
  | .error _ => .ok unknownId
  | .ok s =>
    match Json.read (Json.lenient depth) s with
    | .ok v => .ok (idOfValue v.withoutRepeats)
    | .error .malformed => .ok unknownId
    | .error (.tooDeep list) => .error (.tooDeep list)

/-- The line that is logged for a message that cannot be handled. -/
def line (id : Text.CodeText) (m : Message) : Text.CodeText :=
  Text.CodeText.ofString "change failed change_id=" ++ id ++
    Text.CodeText.ofString (" topic=" ++ m.topic ++ " partition=" ++ toString m.partition ++
      " offset=" ++ toString m.offset)

/-- A dead letter as a value, given how the fault is described and where it arose. -/
def toValue (description trace : Value) (d : DeadLetter) : Value :=
  .obj [("failed_at", .int d.failedAt), ("source_topic", .str d.topic),
    ("source_partition", .int d.partition), ("source_offset", .int d.offset),
    ("change_id", .str d.changeId), ("error_type", .str d.fault.kind),
    ("error_message", description), ("stack_trace", trace), ("raw_value", .str d.rawValue)]

/-- A dead letter as a text. -/
def write (description trace : String) (d : DeadLetter) : String :=
  Json.ascii.write (d.toValue (.str description) (.str trace))

end DeadLetter

end PageInvalidation.Dispatch
