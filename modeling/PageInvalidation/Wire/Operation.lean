import PageInvalidation.Wire.Scalar

/-! # Diffs in messages

A diff travels as an object of tagged operations. The tag tells which members an operation has; a nested
diff is an operation itself.

* `Operation.ofValue` and `Operation.toValue` read and write operations. -/

namespace PageInvalidation.Wire

/-- An operation of a diff in a message. -/
inductive Operation where
  | add (new : Value)
  | remove (old : Value)
  | change (old new : Value)
  | diff (associative : Bool) (operations : List (Text.CodeText × Operation))
  deriving Repr, Inhabited

/-- A diff in a message. -/
structure DiffMessage where
  associative : Bool
  operations : List (Text.CodeText × Operation)
  deriving Repr

/-- The empty diff. -/
def DiffMessage.empty : DiffMessage := ⟨true, []⟩

namespace Operation

/-! ### Reading -/

/-- A free value. -/
def any (v : Value) : Checked Value := .ok v.withoutRepeats

/-- The member that holds the tag, where it must be a given one. -/
def tagMember (tag : Text.CodeText) (members : Members) : Checked Unit :=
  optional "type" () (fun v => match v with
    | .str s => if s = tag then .ok () else .fail .literalError
    | _ => .fail .literalError) members

/-- The members of an addition. -/
def addOf (members : Members) : Checked Operation :=
  ((required "newvalue" any members).map add).guarded (extras ["type", "newvalue"] members)

/-- The members of a removal. -/
def removeOf (members : Members) : Checked Operation :=
  ((required "oldvalue" any members).map remove).guarded (extras ["type", "oldvalue"] members)

/-- The members of a change. -/
def changeOf (members : Members) : Checked Operation :=
  (((required "oldvalue" any members).map change).and (required "newvalue" any members)).guarded
    (extras ["type", "oldvalue", "newvalue"] members)

/-- The members of a diff, once its operations are known. -/
def diffOf (members : Members) (operations : Checked (List (Text.CodeText × Operation))) :
    Checked DiffMessage :=
  let tag := (tagMember "diff" members).map fun _ => DiffMessage.mk
  ((tag.and (optional "isassoc" true truth members)).and operations).guarded
    (extras ["type", "isassoc", "operations"] members)

/-- A diff as an operation. -/
def ofDiff (d : DiffMessage) : Operation := .diff d.associative d.operations

mutual

/-- The operation that a value writes. -/
def ofValue : Value → Checked Operation
  | .obj members =>
    match Json.member? "type" members with
    | none => .fail .unionTagNotFound
    | some (.str tag) =>
      if tag = "add" then (addOf members).under (.name "add")
      else if tag = "remove" then (removeOf members).under (.name "remove")
      else if tag = "change" then (changeOf members).under (.name "change")
      else if tag = "diff" then
        ((diffOf members ((operationsIn members).getD (.ok []))).map ofDiff).under (.name "diff")
      else .fail .unionTagInvalid
    | some _ => .fail .unionTagInvalid
  | _ => .fail .dictType

/-- The operations among the members of a diff, if they are there. -/
def operationsIn : Members → Option (Checked (List (Text.CodeText × Operation)))
  | [] => none
  | (name, v) :: rest =>
    match operationsIn rest with
    | some operations => some operations
    | none =>
      if name = "operations" then some ((operationsOf v).under (.name "operations")) else none

/-- The operations that a value holds. Each member must be one, also where another has its name. -/
def operationsOf : Value → Checked (List (Text.CodeText × Operation))
  | .obj members => (each members).map (distinctBy Prod.fst)
  | _ => .fail .dictType

/-- The operations that members are. -/
def each : Members → Checked (List (Text.CodeText × Operation))
  | [] => .ok []
  | (name, v) :: rest =>
    (((ofValue v).under (.name name)).map fun op => List.cons (name, op)).and (each rest)

end

/-! ### Writing -/

mutual

/-- An operation as a value. -/
def toValue : Operation → Value
  | .add new => .obj [("type", .str "add"), ("newvalue", new)]
  | .remove old => .obj [("type", .str "remove"), ("oldvalue", old)]
  | .change old new => .obj [("type", .str "change"), ("oldvalue", old), ("newvalue", new)]
  | .diff associative operations =>
    .obj [("type", .str "diff"), ("isassoc", .bool associative),
      ("operations", .obj (membersOf operations))]

/-- Operations as members. -/
def membersOf : List (Text.CodeText × Operation) → Members
  | [] => []
  | (name, op) :: rest => (name, toValue op) :: membersOf rest

end

mutual

/-- The number of leaves. -/
def count : Operation → Nat
  | .diff _ operations => countAll operations
  | _ => 1

/-- The number of leaves of operations. -/
def countAll : List (Text.CodeText × Operation) → Nat
  | [] => 0
  | (_, op) :: rest => count op + countAll rest

end

end Operation

namespace DiffMessage

/-- The diff that a value writes. -/
def ofValue : Value → Checked DiffMessage
  | .obj members => Operation.diffOf members ((Operation.operationsIn members).getD (.ok []))
  | _ => .fail .modelType

/-- A diff as a value. -/
def toValue (d : DiffMessage) : Value := (Operation.ofDiff d).toValue

end DiffMessage

end PageInvalidation.Wire
