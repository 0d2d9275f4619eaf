import PageInvalidation.Aspect.Key
import PageInvalidation.Entity
import PageInvalidation.Json.Equality

/-! # Usages

A usage says that a page depends on one aspect of one entity. Its identity is the text of both parts
with a hash sign between them; sets of usages tell usages apart by it. -/

namespace PageInvalidation

/-- A dependency on an aspect of an entity. -/
structure Usage where
  entity : EntityId
  key : AspectKey
  deriving DecidableEq, Repr

namespace Usage

/-- Why there is no such usage, or no such record of usages. -/
inductive Error where
  | key (e : AspectKey.Error)
  | entity (e : EntityId.Error)
  /-- The entity of a usage is no identifier. -/
  | noEntity
  /-- The aspect of a usage is no aspect. -/
  | noAspect
  /-- The number of a page record is negative or no integer. -/
  | badPageId (value : Value)
  /-- An entry of a page record is no usage. -/
  | notUsage (value : Value)
  /-- An entry without an identity. -/
  | noIdentity (value : Value)
  /-- A value that can be in no set of keys. -/
  | unhashable (value : Value)

/-- The words for an error. -/
def Error.message : Error → String
  | .key e => e.message
  | .entity e => e.message
  | .noEntity => "entity_id must be an EntityId"
  | .noAspect => "aspect must be an Aspect"
  | .badPageId value => "page_id must be a non-negative integer, got " ++ value.displayed
  | .notUsage value => "expected EntityUsage, got " ++ value.typeName
  | .noIdentity value =>
    Text.quoted value.typeName ++ " object has no attribute 'identity_string'"
  | .unhashable value => "unhashable type: " ++ Text.quoted value.typeName

/-- The identity of a usage. -/
def identity (u : Usage) : Text.CodeText := u.entity.serialization ++ .scalar '#' :: u.key.text

/-- The usage of parts that may be missing because they are of another kind. -/
def ofParts (entity : Option EntityId) (aspect : Option Aspect) (modifier : Option Text.CodeText) :
    Except Error Usage :=
  match entity, aspect with
  | none, _ => .error .noEntity
  | some _, none => .error .noAspect
  | some e, some a => ((AspectKey.make a modifier).map (⟨e, ·⟩)).mapError .key

/-- The usage of an entity under the text of a key. -/
def ofKeyText (entity : EntityId) (key : Text.CodeText) : Except Error Usage :=
  ((AspectKey.ofText key).map (⟨entity, ·⟩)).mapError .key

/-- The usage of an entity under a value that writes a key. -/
def ofKeyValue (entity : EntityId) (key : Value) : Except Error Usage :=
  ((AspectKey.ofValue key).map (⟨entity, ·⟩)).mapError .key

/-- A usage as a value. -/
def toValue (u : Usage) : Value :=
  .obj [("entity_id", .str u.entity.serialization), ("aspect", .str u.key.aspect.code),
    ("modifier", match u.key.modifier with | none => .null | some m => .str m)]

end Usage

/-- What is offered to a record of usages: a usage, or a value of another kind. -/
inductive Entry where
  | usage (u : Usage)
  | foreign (v : Value)

namespace Entry

/-- Whether two entries are equal. -/
def same : Entry → Entry → Bool
  | .usage u, .usage v => u = v
  | .foreign v, .foreign w => v.same w
  | _, _ => false

/-- The elements of a set with one more element, which must not be a list or an object. -/
def insertInto (set : List Entry) (e : Entry) : Except Usage.Error (List Entry) :=
  match e with
  | .foreign (.arr items) => .error (.unhashable (.arr items))
  | .foreign (.obj members) => .error (.unhashable (.obj members))
  | e => .ok (if set.any e.same then set else set ++ [e])

/-- The elements of the set of given entries. -/
def setOf (entries : List Entry) : Except Usage.Error (List Entry) := entries.foldlM insertInto []

end Entry

end PageInvalidation
