import PageInvalidation.Affected.Pages
import PageInvalidation.Wire.Convert

/-! # Handling a change

A change message becomes the event that lists the pages it affects; a change that affects none becomes
nothing. -/

namespace PageInvalidation.Dispatch.Handler

variable {σ : Type} [Journalled σ]

/-- Who writes the notes of this module. -/
def source : String := "change-dispatch-handler"

/-- The note about a change that affects no page. -/
def idleNote? (m : Wire.ChangeMessage) : Option Text.CodeText := do
  return Text.CodeText.ofString ("no affected pages change_id=" ++ (← Text.decimal? m.id) ++ " entity=") ++
    m.entity

/-- The note about a change that affects pages. -/
def note? (m : Wire.ChangeMessage) (aspects : List AspectKey) (pages : List PageUsages) :
    Option Text.CodeText := do
  return Text.CodeText.ofString ("change_id=" ++ (← Text.decimal? m.id) ++ " entity=") ++ m.entity ++
    Text.CodeText.ofString " aspects=" ++
    List.intercalate (Text.CodeText.ofString ",") (aspects.map AspectKey.text) ++
    Text.CodeText.ofString (" pages=" ++ toString pages.length)

/-- The event for a change that affects pages. -/
def event (m : Wire.ChangeMessage) (c : EntityChange) (aspects : List AspectKey) (now : Instant)
    (pages : List PageUsages) : Wire.EventMessage where
  changeId := m.id
  changeType := c.typeText
  entity := c.entity.serialization
  revision := c.revision
  changedAspects := aspects.map AspectKey.text
  processedAt := now.toMillis
  pages := pages.map Wire.PageMessage.ofPage

/-- Handles a change message: the event, if any page is affected. -/
def handle (f : Finder) (sources : Sources σ) (m : Wire.ChangeMessage) (now : Instant) :
    Act σ (Option Wire.EventMessage) := do
  let c ← Act.ofExcept id m.toChange
  let pages ← f.affectedBy sources c
  if pages.isEmpty then
    Act.noteIf .debug source (idleNote? m)
    return none
  else
    let aspects ← Act.ofExcept id (f.changedAspects c)
    Act.noteIf .debug source (note? m aspects pages)
    return some (event m c aspects now pages)

end PageInvalidation.Dispatch.Handler
