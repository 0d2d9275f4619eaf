import PageInvalidation.Json.Writer
import PageInvalidation.Text.Utf8

/-! # Writing messages

A message is written as one line of JSON. Values must not nest too deep, and a text with a surrogate that
stands alone cannot be written; only the names of members are, with such a surrogate replaced. The first
fault in the order of writing counts. -/

namespace PageInvalidation.Wire

/-- Why a message cannot be written. -/
inductive WriteError where
  | tooDeep
  | text (u : Text.Utf8.Unwritable)
  deriving DecidableEq, Repr

/-- The words for an error. -/
def WriteError.message : WriteError → String
  | .tooDeep => "Error serializing to JSON: ValueError: Maximum serialization depth exceeded"
  | .text u => "Error serializing to JSON: UnicodeEncodeError: " ++ u.message

/-- How deep a message may nest to be written. -/
def maxWrittenDepth : Nat := 256

/-- A text that can be written. -/
def checkText (s : Text.CodeText) : Except WriteError Unit :=
  match Text.Utf8.writable s with
  | .ok _ => .ok ()
  | .error u => .error (.text u)

mutual

/-- A value that can be written, where `left` values may still stand inside each other. -/
def checkValue : (left : Nat) → Value → Except WriteError Unit
  | 0, _ => .error .tooDeep
  | _ + 1, .str s => checkText s
  | left + 1, .arr items => checkItems left items
  | left + 1, .obj members => checkMembers left members
  | _ + 1, _ => .ok ()

/-- Items that can be written. -/
def checkItems (left : Nat) : List Value → Except WriteError Unit
  | [] => .ok ()
  | v :: rest => do
    checkValue left v
    checkItems left rest

/-- Members that can be written. -/
def checkMembers (left : Nat) : Members → Except WriteError Unit
  | [] => .ok ()
  | (_, v) :: rest => do
    checkValue left v
    checkMembers left rest

end

/-- A message as a text. -/
def write (v : Value) : Except WriteError String :=
  (checkValue maxWrittenDepth v).map fun _ => Json.compact.write v

end PageInvalidation.Wire
