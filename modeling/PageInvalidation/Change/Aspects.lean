import PageInvalidation.Fault

/-! # The aspects that a change touches

Site links, titles and labels are told apart; whatever else a diff holds counts as *other*. The leaves
of the whole diff are counted, those of the site links and one for each label are taken off, and what
remains is other. A diff without leaves stands for changes that are not shown, and is other too. -/

namespace PageInvalidation.ChangedAspects

/-- The entry of a site link that holds the title. -/
def nameKey : String := "name"

/-- Whether the change of a site link leaves the title as it is. -/
def badgesOnly (op : DiffOp) : Bool :=
  match op.toDiff? with
  | some d => !d.hasName nameKey
  | none => false

/-- What one part of a diff contributes: the keys it touches, and the leaves it accounts for. -/
structure Part where
  keys : List AspectKey
  leaves : Nat

/-- The keys that a diff of site links touches: the links, and the title if the own site's link changes by
more than its badges. -/
def siteLinkKeys (site : Text.CodeText) (links : Diff) : List AspectKey :=
  match links.get? (.name site) with
  | some op => if badgesOnly op then [.bare .siteLink] else [.bare .siteLink, .bare .title]
  | none => [.bare .siteLink]

/-- The part of the site links. -/
def siteLinkPart (site : Text.CodeText) (d : Diff) : Except Diff.Error Part :=
  if d.form = .item then
    (d.field .siteLinks).map fun links =>
      if links.isEmpty then ⟨[], 0⟩ else ⟨siteLinkKeys site links, links.count⟩
  else .ok ⟨[], 0⟩

/-- The key of the label in a language. A number is taken for its digits, zero for no language. -/
def labelKey : DiffKey → Except AspectKey.Error AspectKey
  | .name language => AspectKey.make .label (some language)
  | .index n => AspectKey.make .label (some (if n = 0 then [] else (toString n : String)))

/-- The part of the labels. -/
def labelPart (d : Diff) : Except Fault Part := do
  let labels ← (d.field .labels).mapError .diff
  let keys ← (labels.keys.mapM labelKey).mapError .key
  return ⟨keys, keys.length⟩

/-- The leaves that parts account for. -/
def accounted (parts : List Part) : Nat := parts.foldr (fun part n => part.leaves + n) 0

/-- The keys that are touched by leaves that no part accounts for. -/
def otherKeys (total : Nat) (parts : List Part) : List AspectKey :=
  if (0 : Int) < total - accounted parts then [.bare .other] else []

/-- The keys that a diff touches, each once. -/
def ofDiff (site : Text.CodeText) (d : Diff) : Except Fault (List AspectKey) :=
  if d.count = 0 then .ok [.bare .other]
  else do
    let links ← (siteLinkPart site d).mapError .diff
    let labels ← labelPart d
    return distinct (links.keys ++ labels.keys ++ otherKeys d.count [links, labels])

/-- The keys that a change touches, for a client with a given site. -/
def ofChange (site : Text.CodeText) (c : EntityChange) : Except Fault (List AspectKey) := ofDiff site c.diff

end PageInvalidation.ChangedAspects
