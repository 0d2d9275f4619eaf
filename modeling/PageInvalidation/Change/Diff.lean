import PageInvalidation.Json.Display
import PageInvalidation.Json.Equality
import PageInvalidation.Keyed

/-! # Diffs

What changed in an entity, as a tree: leaves say that a value was added, removed or changed, inner nodes
are diffs of their own with named or numbered entries. Three forms of diffs differ in the fields that
can be looked into by name.

* `DiffOp.count` counts the leaves, however deep.
* `Diff.view` looks into a field. -/

namespace PageInvalidation

/-- What a diff is of: anything, an entity, or an item. -/
inductive DiffForm where
  | plain
  | entity
  | item
  deriving DecidableEq, Repr

/-- The key of an entry: a name, or a position in a list. -/
inductive DiffKey where
  | name (s : Text.CodeText)
  | index (n : Int)
  deriving DecidableEq, Repr

/-- One change, or a diff inside a diff. -/
inductive DiffOp where
  | add (new : Value)
  | remove (old : Value)
  | change (old new : Value)
  /-- A change of which nothing is said. -/
  | unspecified
  | nested (form : DiffForm) (entries : List (DiffKey × DiffOp)) (associative : Bool)
  deriving Repr, Inhabited

/-- A diff: entries under distinct keys. -/
structure Diff where
  form : DiffForm
  entries : List (DiffKey × DiffOp)
  associative : Bool
  deriving Repr

/-- What is offered as a change: one, or a value of another kind. -/
inductive Operand where
  | op (o : DiffOp)
  | foreign (v : Value)

/-- The fields of an entity that a diff can be looked into for. -/
inductive DiffField where
  | labels
  | descriptions
  | aliases
  | claims
  | siteLinks
  deriving DecidableEq, Repr

namespace DiffForm

/-- The name of a form in messages. -/
def name : DiffForm → String
  | .plain => "Diff"
  | .entity => "EntityDiff"
  | .item => "ItemDiff"

/-- The form with a name. -/
def ofName? (s : String) : Option DiffForm :=
  [plain, entity, item].find? fun form => s = form.name

/-- Whether diffs of the form can be looked into for a field. -/
def views : DiffForm → DiffField → Bool
  | .plain, _ => false
  | .entity, field => field != .siteLinks
  | .item, _ => true

end DiffForm

namespace DiffKey

/-- A key in messages. -/
def displayed : DiffKey → String
  | .name s => Text.quoted s
  | .index n => toString n

/-- A key as running text. -/
def text : DiffKey → Text.CodeText
  | .name s => s
  | .index n => toString n

/-- A key as a value. -/
def toValue : DiffKey → Value
  | .name s => .str s
  | .index n => .int n

/-- The key that a value finds; numbers and truth values find positions. -/
def ofValue? : Value → Option DiffKey
  | .str s => some (.name s)
  | .int n => some (.index n)
  | .bool b => some (.index (if b then 1 else 0))
  | .float x => if x.isIntegral then x.truncate?.map .index else none
  | _ => none

end DiffKey

namespace DiffField

/-- The key under which a field stands. -/
def key : DiffField → String
  | .labels => "labels"
  | .descriptions => "descriptions"
  | .aliases => "aliases"
  | .claims => "claims"
  | .siteLinks => "sitelinks"

/-- The name of the view of a field in messages. -/
def viewName : DiffField → String
  | .labels => "labels_diff"
  | .descriptions => "descriptions_diff"
  | .aliases => "aliases_diff"
  | .claims => "claims_diff"
  | .siteLinks => "site_link_diff"

end DiffField

/-! ### Changes -/

namespace DiffOp

/-- The word for the kind of a change. -/
def kind : DiffOp → String
  | .add _ => "add"
  | .remove _ => "remove"
  | .change _ _ => "change"
  | .unspecified => ""
  | .nested _ _ _ => "diff"

/-- The name of a change's kind in messages. -/
def typeName : DiffOp → String
  | .add _ => "DiffOpAdd"
  | .remove _ => "DiffOpRemove"
  | .change _ _ => "DiffOpChange"
  | .unspecified => "DiffOp"
  | .nested form _ _ => form.name

/-- Whether the change is a leaf. -/
def isLeaf : DiffOp → Bool
  | .nested _ _ _ => false
  | _ => true

mutual

/-- The number of leaves. -/
def count : DiffOp → Nat
  | .nested _ entries _ => countEntries entries
  | _ => 1

/-- The number of leaves under entries. -/
def countEntries : List (DiffKey × DiffOp) → Nat
  | [] => 0
  | (_, op) :: rest => op.count + countEntries rest

end

mutual

/-- Whether two changes are equal. Diffs are if they have the same form and equal entries, in any order.
An unspecified change equals nothing. -/
def same : DiffOp → DiffOp → Bool
  | .add a, .add b => b.same a
  | .remove a, .remove b => b.same a
  | .change a a', .change b b' => b.same a && b'.same a'
  | .nested form entries _, .nested form' entries' _ =>
    form == form' && entries.length == entries'.length && entriesIn entries entries'
  | _, _ => false

/-- Whether each entry has an equal one among others. -/
def entriesIn : List (DiffKey × DiffOp) → List (DiffKey × DiffOp) → Bool
  | [], _ => true
  | (k, op) :: rest, others =>
    (match others.find? fun e => e.1 = k with
      | some other => same op other.2
      | none => false) && entriesIn rest others

end

mutual

/-- A change in messages. -/
def displayed : DiffOp → String
  | .add new => "DiffOpAdd(" ++ new.displayed ++ ")"
  | .remove old => "DiffOpRemove(" ++ old.displayed ++ ")"
  | .change old new => "DiffOpChange(" ++ old.displayed ++ ", " ++ new.displayed ++ ")"
  | .unspecified => "DiffOp()"
  | .nested form entries _ =>
    form.name ++ "(\x7b" ++ String.intercalate ", " (displayedEntries entries) ++ "\x7d)"

/-- Each entry in messages. -/
def displayedEntries : List (DiffKey × DiffOp) → List String
  | [] => []
  | (k, op) :: rest => (k.displayed ++ ": " ++ op.displayed) :: displayedEntries rest

end

/-- The diff that a change is. -/
def toDiff? : DiffOp → Option Diff
  | .nested form entries associative => some ⟨form, entries, associative⟩
  | _ => none

end DiffOp

namespace Operand

/-- The name of an operand's kind in messages. -/
def typeName : Operand → String
  | .op o => o.typeName
  | .foreign v => v.typeName

/-- Whether an operand is a change equal to a given one. -/
def same : Operand → DiffOp → Bool
  | .op o, o' => o'.same o
  | .foreign _, _ => false

end Operand

/-! ### Diffs -/

namespace Diff

/-- Why a diff cannot be built or looked into. -/
inductive Error where
  /-- An entry that is no change. -/
  | notChange (key : DiffKey) (typeName : String)
  /-- No entry under a key. -/
  | unknownKey (key : Value)
  /-- A value that is no key of anything. -/
  | unhashable (value : Value)
  /-- A field that holds a leaf. -/
  | notNested (field : DiffField) (typeName : String)
  /-- A field that cannot be looked into. -/
  | noView (typeName : String) (field : DiffField)
  /-- A change that is none of the known ones where a leaf is needed. -/
  | notLeaf (typeName : String)
  /-- A change that has no written form. -/
  | notWritable (typeName : String)

/-- The words for an error. -/
def Error.message : Error → String
  | .notChange key typeName =>
    "diff operation for " ++ key.displayed ++ " must be a DiffOp, got " ++ typeName
  | .unknownKey key => key.displayed
  | .unhashable value => "unhashable type: " ++ Text.quoted value.typeName
  | .notNested field typeName =>
    "field " ++ Text.quoted field.key ++ " must hold a nested diff, got " ++ typeName
  | .noView typeName field =>
    Text.quoted typeName ++ " object has no attribute " ++ Text.quoted field.viewName
  | .notLeaf typeName => "unknown change operation: " ++ typeName
  | .notWritable typeName => "cannot serialize diff operation: " ++ typeName

/-- The empty diff of a form. -/
def empty (form : DiffForm) : Diff := ⟨form, [], true⟩

/-- The diff as a change. -/
def toOp (d : Diff) : DiffOp := .nested d.form d.entries d.associative

/-- An operand that is a change. -/
def checked (key : DiffKey) : Operand → Except Error (DiffKey × DiffOp)
  | .op o => .ok (key, o)
  | .foreign v => .error (.notChange key v.typeName)

/-- The diff with given entries; of a repeated key the last operand counts. -/
def ofEntries (form : DiffForm) (associative : Bool) (entries : List (DiffKey × Operand)) :
    Except Error Diff :=
  ((distinctBy Prod.fst entries).mapM fun e => checked e.1 e.2).map (⟨form, ·, associative⟩)

/-- The entry under a key. -/
def get? (d : Diff) (key : DiffKey) : Option DiffOp :=
  (d.entries.find? fun e => e.1 = key).map Prod.snd

/-- Whether there is an entry under a name. -/
def hasName (d : Diff) (name : Text.CodeText) : Bool := (d.get? (.name name)).isSome

/-- The keys in order. -/
def keys (d : Diff) : List DiffKey := d.entries.map Prod.fst

/-- Whether there is no entry. -/
def isEmpty (d : Diff) : Bool := d.entries.isEmpty

/-- The number of leaves. -/
def count (d : Diff) : Nat := DiffOp.countEntries d.entries

/-- The entry that a value finds. -/
def getValue? (d : Diff) : Value → Except Error (Option DiffOp)
  | .arr items => .error (.unhashable (.arr items))
  | .obj members => .error (.unhashable (.obj members))
  | v => .ok ((DiffKey.ofValue? v).bind d.get?)

/-- The entry that a value finds, which must exist. -/
def getValue (d : Diff) (v : Value) : Except Error DiffOp := do
  match ← d.getValue? v with
  | some op => .ok op
  | none => .error (.unknownKey v)

/-- The diff in a field; empty if there is none. -/
def field (d : Diff) (f : DiffField) : Except Error Diff :=
  match d.get? (.name f.key) with
  | none => .ok (empty .plain)
  | some op =>
    match op.toDiff? with
    | some diff => .ok diff
    | none => .error (.notNested f op.typeName)

/-- The diff in a field that a change can be looked into for. -/
def view (op : DiffOp) (f : DiffField) : Except Error Diff :=
  match op.toDiff? with
  | some d => if d.form.views f then d.field f else .error (.noView op.typeName f)
  | none => .error (.noView op.typeName f)

end Diff

end PageInvalidation
