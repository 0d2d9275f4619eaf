import PageInvalidation.Keyed
import PageInvalidation.Usage.Basic

/-! # Usage sets

Usages in the order in which they were first seen, told apart by their identities. All that records
usages, a page, a rendering in progress or a store, keeps them in such a set. -/

namespace PageInvalidation

/-- A set of usages in order of first occurrence. -/
abbrev UsageSet := Keyed Usage.identity

namespace UsageSet

/-- The entities of the usages, each once. -/
def entities (s : UsageSet) : List EntityId := distinct (s.toList.map Usage.entity)

/-- The usages of an entity. -/
def ofEntity (s : UsageSet) (e : EntityId) : List Usage := s.toList.filter fun u => u.entity = e

/-- The keys under which an entity is used, each once. -/
def keysOf (s : UsageSet) (e : EntityId) : List AspectKey := distinct ((s.ofEntity e).map Usage.key)

/-- The keys of all usages, each once. -/
def allKeys (s : UsageSet) : List AspectKey := distinct (s.toList.map Usage.key)

/-- Whether two sets hold the same identities. -/
def sameIdentities (s t : UsageSet) : Bool :=
  s.keys.all (t.contains ·) && t.keys.all (s.contains ·)

end UsageSet

end PageInvalidation
