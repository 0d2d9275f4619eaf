import PageInvalidation.Usage.Page

/-! # Narrowing to relevant aspects

A change touches some aspects of an entity, the *relevant* ones. Narrowing turns a page record into the
record of what the change does to the page: the keys that the page uses and the change touches. A key
without a modifier stands for all its modified keys on either side, and of such a pair the modified key
is reported. A page that uses every aspect is reported with exactly the relevant keys. -/

namespace PageInvalidation

/-- The relevant keys of each entity. -/
structure Narrowing where
  relevant : Keyed (Prod.fst : EntityId × List AspectKey → EntityId)

namespace Narrowing

/-- No entity has relevant keys. -/
def empty : Narrowing := ⟨Keyed.empty⟩

/-- Sets the relevant keys of an entity. -/
def set (n : Narrowing) (e : EntityId) (keys : List AspectKey) : Narrowing :=
  ⟨n.relevant.put (e, distinct keys)⟩

/-- Sets the relevant keys of an entity to those that values write. -/
def setValues (n : Narrowing) (e : EntityId) (keys : List Value) : Except Usage.Error Narrowing :=
  ((keys.mapM AspectKey.ofValue).map (n.set e)).mapError .key

/-- The relevant keys of an entity. -/
def get (n : Narrowing) (e : EntityId) : List AspectKey :=
  match n.relevant.find? e with
  | some entry => entry.2
  | none => []

/-- The modified keys of a list whose bare aspect is in another list. -/
def coveredBy (keys others : List AspectKey) : List AspectKey :=
  keys.filter fun k => k.isModified && k.stripped ∈ others

/-- The keys reported for a page that uses `used` when `relevant` are touched: common keys first, then
modified relevant keys of which the page uses the aspect, then modified used keys of which the aspect is
touched. -/
def narrowKeys (used relevant : List AspectKey) : List AspectKey :=
  if used.isEmpty then []
  else if AspectKey.bare .all ∈ used then relevant
  else if AspectKey.bare .all ∈ relevant then used
  else
    distinct (relevant.filter (· ∈ used) ++ coveredBy relevant used ++ coveredBy used relevant)

/-- The usages reported for an entity that a page uses under some keys. -/
def narrowEntity (n : Narrowing) (e : EntityId) (used : List AspectKey) : List Usage :=
  let relevant := n.get e
  if relevant.isEmpty then [] else (narrowKeys used relevant).map (⟨e, ·⟩)

/-- The record of a page narrowed to the relevant keys. -/
def apply (n : Narrowing) (p : PageUsages) : PageUsages :=
  p.usages.entities.foldl (fun q e => q.addAll (n.narrowEntity e (p.usages.keysOf e)))
    (.empty p.pageId)

end Narrowing

end PageInvalidation
