import PageInvalidation.Usage.Basic
import PageInvalidation.Keyed

/-! # Aspect filters

A lookup asks for usages under some keys. A modified key also matches a usage of the bare aspect, and a
bare key matches every modified key of its aspect. -/

namespace PageInvalidation

/-- What a lookup asks for: exact keys, and aspects under any modifier. -/
structure UsageFilter where
  exact : List AspectKey
  anyModifier : List Aspect

namespace UsageFilter

/-- The filter that matches nothing. -/
def empty : UsageFilter := ⟨[], []⟩

/-- The filter that also matches a key. -/
def add (f : UsageFilter) (k : AspectKey) : UsageFilter :=
  let exact := insertBy id f.exact k
  if k.isModified then ⟨insertBy id exact k.stripped, f.anyModifier⟩
  else if k.aspect.acceptsModifier then ⟨exact, insertBy id f.anyModifier k.aspect⟩
  else ⟨exact, f.anyModifier⟩

/-- The filter for a list of keys. -/
def ofKeys (keys : List AspectKey) : UsageFilter := keys.foldl add empty

/-- The filter for values that write keys. -/
def ofValues (keys : List Value) : Except Usage.Error UsageFilter :=
  ((keys.mapM AspectKey.ofValue).map ofKeys).mapError .key

/-- Whether a key matches. -/
def admits (f : UsageFilter) (k : AspectKey) : Bool :=
  k ∈ f.exact || (k.isModified && k.aspect ∈ f.anyModifier)

/-- Whether the key that a value writes matches. -/
def admitsValue (f : UsageFilter) (v : Value) : Except Usage.Error Bool :=
  match v with
  | .arr _ | .obj _ => .error (.unhashable v)
  | v => ((AspectKey.ofValue v).map f.admits).mapError .key

end UsageFilter

end PageInvalidation
