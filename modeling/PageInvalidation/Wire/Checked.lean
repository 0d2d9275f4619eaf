import PageInvalidation.Json.Basic
import PageInvalidation.Keyed
import PageInvalidation.Wire.Issue

/-! # Checked parts of a message

A part of a message is either taken over or found faulty with a list of issues. Parts are put together
so that the issues of all of them are kept, in the order of the parts. -/

namespace PageInvalidation.Wire

/-- A part of a message, or what is wrong with it. -/
abbrev Checked (α : Type) := Except (List Issue) α

namespace Checked

variable {α β : Type}

/-- A part with one issue. -/
def fail (kind : IssueKind) : Checked α := .error [.here kind]

/-- The issues of a part. -/
def issues : Checked α → List Issue
  | .ok _ => []
  | .error is => is

/-- A part at a place of the whole. -/
def under (place : Place) (part : Checked α) : Checked α := part.mapError fun is => is.map (.under place)

/-- A part made into another. -/
def map (f : α → β) : Checked α → Checked β := Except.map f

/-- Two parts together. -/
def and (part : Checked (α → β)) (next : Checked α) : Checked β :=
  match part, next with
  | .ok f, .ok a => .ok (f a)
  | part, next => .error (part.issues ++ next.issues)

/-- A whole that must also pass a check without a result. -/
def guarded (part : Checked α) (is : List Issue) : Checked α :=
  match part with
  | .ok a => if is.isEmpty then .ok a else .error is
  | .error is' => .error (is' ++ is)

end Checked

/-! ### Objects -/

variable {α : Type}

/-- A member that must be there. -/
def required (name : Text.CodeText) (decode : Value → Checked α) (members : Members) : Checked α :=
  match Json.member? name members with
  | some v => (decode v).under (.name name)
  | none => (Checked.fail .missing).under (.name name)

/-- A member that may be left out. -/
def optional (name : Text.CodeText) (default : α) (decode : Value → Checked α) (members : Members) :
    Checked α :=
  match Json.member? name members with
  | some v => (decode v).under (.name name)
  | none => .ok default

/-- The issues of members that are not known, one for each name. -/
def extras (known : List Text.CodeText) (members : Members) : List Issue :=
  ((distinct (members.map Prod.fst)).filter (!known.contains ·)).map fun name =>
    ⟨.extraForbidden, [.name name]⟩

/-- An object with known members. -/
def object (known : List Text.CodeText) (decode : Members → Checked α) : Value → Checked α
  | .obj members => (decode members).guarded (extras known members)
  | _ => .fail .modelType

/-- The items of a list, counted from a position. -/
def itemsFrom (decode : Value → Checked α) (position : Nat) : List Value → Checked (List α)
  | [] => .ok []
  | v :: rest =>
    (Checked.and (((decode v).under (.index position)).map List.cons)
      (itemsFrom decode (position + 1) rest))

/-- A list. -/
def list (decode : Value → Checked α) : Value → Checked (List α)
  | .arr items => itemsFrom decode 0 items
  | _ => .fail .listType

end PageInvalidation.Wire
