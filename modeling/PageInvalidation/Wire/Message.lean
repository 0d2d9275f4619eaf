import PageInvalidation.Change.Basic
import PageInvalidation.Fault
import PageInvalidation.Json.Reader
import PageInvalidation.Wire.Operation
import PageInvalidation.Wire.Writing

/-! # Messages

The messages that travel: changes of entities, and events that list affected pages with their usages. A
message is read from a text, with all its issues found at once, and written with its members in a fixed
order. -/

namespace PageInvalidation.Wire

/-- A change of an entity. -/
structure ChangeMessage where
  id : Int
  entity : Text.CodeText
  action : ChangeAction
  revision : Int
  time : Option Int
  diff : DiffMessage
  metadata : Members
  deriving Repr

/-- A usage. -/
structure UsageMessage where
  entity : Text.CodeText
  aspect : Text.CodeText
  modifier : Option Text.CodeText
  deriving DecidableEq, Repr

/-- The usages of a page. -/
structure PageMessage where
  pageId : Int
  usages : List UsageMessage
  deriving DecidableEq, Repr

/-- The pages that a change affects. -/
structure EventMessage where
  changeId : Int
  changeType : Text.CodeText
  entity : Text.CodeText
  revision : Int
  changedAspects : List Text.CodeText
  processedAt : Int
  pages : List PageMessage
  deriving DecidableEq, Repr

/-! ### Reading -/

/-- A word for an action. -/
def actionWord : Value → Checked ChangeAction
  | .str s =>
    match ChangeAction.ofWord? s with
    | some a => .ok a
    | none => .fail .literalError
  | _ => .fail .literalError

/-- The change that a value writes. -/
def ChangeMessage.ofValue : Value → Checked ChangeMessage :=
  object ["id", "entity_id", "action", "revision_id", "time", "diff", "metadata"] fun ms =>
    ((((((((optional "id" 0 integer ms).map ChangeMessage.mk).and
      (required "entity_id" text ms)).and
      (optional "action" .update actionWord ms)).and
      (optional "revision_id" 0 integer ms)).and
      (optional "time" none (nullable integer) ms)).and
      (optional "diff" .empty DiffMessage.ofValue ms)).and
      (optional "metadata" [] anyObject ms))

/-- The usage that a value writes. -/
def UsageMessage.ofValue : Value → Checked UsageMessage :=
  object ["entity_id", "aspect", "modifier"] fun ms =>
    (((required "entity_id" text ms).map UsageMessage.mk).and
      (required "aspect" text ms)).and
      (optional "modifier" none (nullable text) ms)

/-- The page record that a value writes. -/
def PageMessage.ofValue : Value → Checked PageMessage :=
  object ["page_id", "usages"] fun ms =>
    ((required "page_id" integer ms).map PageMessage.mk).and
      (optional "usages" [] (list UsageMessage.ofValue) ms)

/-- The event that a value writes. -/
def EventMessage.ofValue : Value → Checked EventMessage :=
  object ["change_id", "change_type", "entity_id", "revision_id", "changed_aspects", "processed_at",
      "pages"] fun ms =>
    (((((((required "change_id" integer ms).map EventMessage.mk).and
      (required "change_type" text ms)).and
      (required "entity_id" text ms)).and
      (required "revision_id" integer ms)).and
      (required "changed_aspects" (list text) ms)).and
      (required "processed_at" integer ms)).and
      (optional "pages" [] (list PageMessage.ofValue) ms)

/-- How many containers a message may nest. -/
def maxDepth : Nat := 200

/-- The message that a text writes. -/
def readMessage {α : Type} (decode : Value → Checked α) (s : List Char) : Checked α :=
  match Json.read (Json.strict maxDepth) s with
  | .ok v => decode v
  | .error _ => .fail .jsonInvalid

/-! ### Writing -/

/-- A change as a value. -/
def ChangeMessage.toValue (m : ChangeMessage) : Value :=
  .obj [("id", .int m.id), ("entity_id", .str m.entity), ("action", .str m.action.word),
    ("revision_id", .int m.revision), ("time", match m.time with | none => .null | some t => .int t),
    ("diff", m.diff.toValue), ("metadata", .obj m.metadata)]

/-- A usage as a value. -/
def UsageMessage.toValue (m : UsageMessage) : Value :=
  .obj [("entity_id", .str m.entity), ("aspect", .str m.aspect),
    ("modifier", match m.modifier with | none => .null | some s => .str s)]

/-- A page record as a value. -/
def PageMessage.toValue (m : PageMessage) : Value :=
  .obj [("page_id", .int m.pageId), ("usages", .arr (m.usages.map UsageMessage.toValue))]

/-- An event as a value. -/
def EventMessage.toValue (m : EventMessage) : Value :=
  .obj [("change_id", .int m.changeId), ("change_type", .str m.changeType),
    ("entity_id", .str m.entity), ("revision_id", .int m.revision),
    ("changed_aspects", .arr (m.changedAspects.map .str)), ("processed_at", .int m.processedAt),
    ("pages", .arr (m.pages.map PageMessage.toValue))]

/-- A change that can be written. Its metadata do not count as a value of their own. -/
def ChangeMessage.check (m : ChangeMessage) : Except WriteError Unit := do
  checkText m.entity
  checkValue (maxWrittenDepth - 1) m.diff.toValue
  checkMembers (maxWrittenDepth - 1) m.metadata

/-- A change as a text. -/
def ChangeMessage.write (m : ChangeMessage) : Except WriteError String :=
  m.check.map fun _ => Json.compact.write m.toValue

/-- An operation as a text. -/
def Operation.write (op : Operation) : Except WriteError String := Wire.write op.toValue

/-- A diff as a text. -/
def DiffMessage.write (d : DiffMessage) : Except WriteError String := Wire.write d.toValue

end PageInvalidation.Wire
