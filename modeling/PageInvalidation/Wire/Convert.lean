import PageInvalidation.Instant.Millis
import PageInvalidation.Usage.Page
import PageInvalidation.Wire.Message

/-! # Messages and what they stand for

Changes, diffs and page records made from messages, and messages made from them. Keys of a diff are
texts in a message; in a diff that is a list, keys that consist of digits are positions. -/

namespace PageInvalidation.Wire

/-! ### Diffs -/

/-- The key that a name stands for. -/
def toKey (associative : Bool) (name : Text.CodeText) : Except NumberError DiffKey :=
  if !associative && !name.isEmpty && name.all (·.satisfies Text.isDigit) then
    (integerOfText name).map .index
  else .ok (.name name)

mutual

/-- The change that an operation stands for. -/
def Operation.toOp : Operation → Except NumberError DiffOp
  | .add new => .ok (.add new)
  | .remove old => .ok (.remove old)
  | .change old new => .ok (.change old new)
  | .diff associative operations => do
    let entries ← toEntries associative operations
    return .nested .plain (distinctBy Prod.fst entries) associative

/-- The entries that operations stand for. -/
def toEntries (associative : Bool) :
    List (Text.CodeText × Operation) → Except NumberError (List (DiffKey × DiffOp))
  | [] => .ok []
  | (name, op) :: rest => do
    let key ← toKey associative name
    let op ← op.toOp
    let entries ← toEntries associative rest
    return (key, op) :: entries

end

/-- The diff that a message stands for. -/
def DiffMessage.toDiff (form : DiffForm) (d : DiffMessage) : Except NumberError Diff := do
  let entries ← toEntries d.associative d.operations
  return ⟨form, distinctBy Prod.fst entries, d.associative⟩

mutual

/-- The operation for a change. -/
def ofOp : DiffOp → Except Diff.Error Operation
  | .add new => .ok (.add new)
  | .remove old => .ok (.remove old)
  | .change old new => .ok (.change old new)
  | .unspecified => .error (.notWritable DiffOp.unspecified.typeName)
  | .nested _ entries associative => do
    let operations ← ofEntries entries
    return .diff associative (distinctBy Prod.fst operations)

/-- The operations for entries. -/
def ofEntries : List (DiffKey × DiffOp) → Except Diff.Error (List (Text.CodeText × Operation))
  | [] => .ok []
  | (key, op) :: rest => do
    let op ← ofOp op
    let operations ← ofEntries rest
    return (key.text, op) :: operations

end

/-- The operation for an operand. -/
def ofOperand : Operand → Except Diff.Error Operation
  | .op o => ofOp o
  | .foreign v => .error (.notWritable v.typeName)

/-- The message for a diff. -/
def DiffMessage.ofDiff (d : Diff) : Except Diff.Error DiffMessage := do
  let operations ← ofEntries d.entries
  return ⟨d.associative, distinctBy Prod.fst operations⟩

/-! ### Changes -/

/-- The time that milliseconds stand for, if there are any. -/
def toTime : Option Int → Except Instant.Error (Option Instant)
  | none => .ok none
  | some millis => (Instant.ofMillis millis).map some

/-- The form of the diffs of an entity. -/
def formOf (isItem : Bool) : { form : DiffForm // form ≠ .plain } :=
  if isItem then ⟨.item, nofun⟩ else ⟨.entity, nofun⟩

theorem form_toDiff {form : DiffForm} {m : DiffMessage} {d : Diff} (h : m.toDiff form = .ok d) :
    d.form = form := by
  unfold DiffMessage.toDiff at h
  cases he : toEntries m.associative m.operations with
  | error e => rw [he] at h; cases h
  | ok entries => rw [he] at h; cases h; rfl

/-- The change that a message stands for. -/
def ChangeMessage.toChange (m : ChangeMessage) : Except Fault EntityChange := do
  let entity ← (EntityId.parse m.entity).mapError .entity
  let time ← (toTime m.time).mapError .instant
  let form := formOf entity.isItem
  match h : m.diff.toDiff form.val with
  | .error e => .error (.number e)
  | .ok diff =>
    return ⟨entity.isItem, entity, diff, m.action, m.revision, time, m.metadata,
      form_toDiff h ▸ form.property⟩

/-- The message for a change. -/
def ChangeMessage.ofChange (id : Int) (c : EntityChange) : Except Diff.Error ChangeMessage := do
  let diff ← DiffMessage.ofDiff c.diff
  return ⟨id, c.entity.serialization, c.action, c.revision, c.time.map Instant.toMillis, diff,
    c.metadata⟩

/-! ### Usages -/

/-- The text of the key that a usage message names. -/
def UsageMessage.keyText (m : UsageMessage) : Text.CodeText :=
  match m.modifier with
  | none => m.aspect
  | some modifier => m.aspect ++ .scalar '.' :: modifier

/-- The usage that a message stands for. -/
def UsageMessage.toUsage (m : UsageMessage) : Except Usage.Error Usage := do
  let entity ← (EntityId.ofText m.entity).mapError .entity
  Usage.ofKeyText entity m.keyText

/-- The message for a usage. -/
def UsageMessage.ofUsage (u : Usage) : UsageMessage :=
  ⟨u.entity.serialization, u.key.aspect.code, u.key.modifier⟩

/-- The page record that a message stands for. -/
def PageMessage.toPage (m : PageMessage) : Except Usage.Error PageUsages := do
  let usages ← m.usages.mapM UsageMessage.toUsage
  return .ofList (← PageUsages.pageIdOfInt m.pageId) usages

/-- The message for a page record. -/
def PageMessage.ofPage (p : PageUsages) : PageMessage :=
  ⟨p.pageId, p.toList.map UsageMessage.ofUsage⟩

end PageInvalidation.Wire
