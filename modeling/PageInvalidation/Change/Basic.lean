import PageInvalidation.Change.Diff
import PageInvalidation.Entity
import PageInvalidation.Instant.Basic

/-! # Changes

An edit of an entity: what was done, by which revision, when, and the diff it made. A change that is not
of an entity is known to exist and nothing more. -/

namespace PageInvalidation

/-- What was done to an entity. -/
inductive ChangeAction where
  | add
  | update
  | remove
  | restore
  deriving DecidableEq, Repr

/-- The word for an action. -/
def ChangeAction.word : ChangeAction → String
  | .add => "add"
  | .update => "update"
  | .remove => "remove"
  | .restore => "restore"

/-- The action with a word. -/
def ChangeAction.ofWord? (s : Text.CodeText) : Option ChangeAction :=
  [add, update, remove, restore].find? fun a => s = a.word

/-- An edit of an entity. An item's change may name the pages its site links point to. -/
structure EntityChange where
  isItem : Bool
  entity : EntityId
  diff : Diff
  action : ChangeAction
  revision : Int
  time : Option Instant
  metadata : Members
  of_entity : diff.form ≠ .plain

/-- A change. -/
inductive Change where
  | unrecognised
  | entity (c : EntityChange)

namespace EntityChange

/-- Why there is no such change. -/
inductive Error where
  | unknownAction (word : Text.CodeText)
  /-- The diff is not of an entity. -/
  | notEntityDiff
  /-- A change that is not of an entity has no such part. -/
  | missingPart (part : String)
  deriving DecidableEq, Repr

/-- The words for an error. -/
def Error.message : Error → String
  | .unknownAction word => "unknown change action: " ++ Text.quoted word
  | .notEntityDiff => "diff must be an EntityDiff"
  | .missingPart part => "'Change' object has no attribute " ++ Text.quoted part

/-- The form of the diff of a change that brings none along. -/
def defaultForm (isItem : Bool) : DiffForm := if isItem then .item else .entity

/-- The change with an operand as its diff. -/
def make (isItem : Bool) (entity : EntityId) (diff : Operand) (action : Text.CodeText)
    (revision : Int) (time : Option Instant) (metadata : Members) : Except Error EntityChange :=
  match ChangeAction.ofWord? action with
  | none => .error (.unknownAction action)
  | some action =>
    match diff with
    | .op (.nested .entity entries associative) =>
      .ok ⟨isItem, entity, ⟨.entity, entries, associative⟩, action, revision, time, metadata, nofun⟩
    | .op (.nested .item entries associative) =>
      .ok ⟨isItem, entity, ⟨.item, entries, associative⟩, action, revision, time, metadata, nofun⟩
    | _ => .error .notEntityDiff

/-- The type of a change in messages. -/
def typeText (c : EntityChange) : String := "wikibase-" ++ c.entity.entityType ++ "~" ++ c.action.word

/-- The diff of the site links of an item; what is no item has none. -/
def siteLinks (c : EntityChange) : Except Diff.Error Diff :=
  if !c.isItem then .error (.noView "EntityChange" .siteLinks)
  else if c.diff.form = .item then c.diff.field .siteLinks
  else .ok (.empty .plain)

end EntityChange

/-- The change as one of an entity, from which a part is wanted. -/
def Change.expectEntity (part : String) : Change → Except EntityChange.Error EntityChange
  | .entity c => .ok c
  | .unrecognised => .error (.missingPart part)

end PageInvalidation
