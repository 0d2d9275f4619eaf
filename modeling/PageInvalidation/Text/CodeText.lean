/-! # Texts

A text is a list of code points: characters, and halves of surrogate pairs without their partner, which a
JSON text may escape and a name or a title may hold. A text without lone halves is a `String`; one with
them cannot be encoded. -/

namespace PageInvalidation.Text

/-- A Unicode code point: a scalar character, or half a surrogate pair given by its distance from
U+D800. -/
inductive CodePoint where
  | scalar (c : Char)
  | lone (half : Fin 2048)
  deriving DecidableEq, Repr, Inhabited

namespace CodePoint

/-- The number of a code point. -/
def toNat : CodePoint → Nat
  | .scalar c => c.toNat
  | .lone half => 0xd800 + half

/-- The code point of a UTF-16 unit. -/
def ofUnit (n : Nat) : CodePoint :=
  if h : 0xd800 ≤ n ∧ n < 0xe000 then .lone ⟨n - 0xd800, by omega⟩ else .scalar (Char.ofNat n)

/-- The character of a code point that has one. -/
def toChar? : CodePoint → Option Char
  | .scalar c => some c
  | .lone _ => none

/-- Whether a code point is a character of a class. A lone half is in none. -/
def satisfies (p : Char → Bool) : CodePoint → Bool
  | .scalar c => p c
  | .lone _ => false

instance : Coe Char CodePoint := ⟨.scalar⟩

instance : LT CodePoint := ⟨fun p q => p.toNat < q.toNat⟩

instance (p q : CodePoint) : Decidable (p < q) := inferInstanceAs (Decidable (p.toNat < q.toNat))

/-- The character that two surrogate halves make together: the first from U+D800 on, the second
from U+DC00 on. -/
def joined? : CodePoint → CodePoint → Option Char
  | .lone high, .lone low =>
    if high.val < 1024 ∧ 1024 ≤ low.val then
      some (Char.ofNat (0x10000 + 1024 * high.val + (low.val - 1024)))
    else none
  | _, _ => none

end CodePoint

/-- A text. -/
abbrev CodeText := List CodePoint

namespace CodeText

/-- The text of characters. -/
def ofList (s : List Char) : CodeText := s.map .scalar

/-- The text of a string. -/
def ofString (s : String) : CodeText := ofList s.toList

instance : Coe String CodeText := ⟨ofString⟩

/-- Whether no surrogate stands alone. -/
def isScalar (t : CodeText) : Bool := t.all fun p => p.toChar?.isSome

/-- The characters, with U+FFFD for each surrogate that stands alone. -/
def replaced (t : CodeText) : List Char := t.map fun p => p.toChar?.getD '\ufffd'

/-- Adds an escaped code point at the end of a text that is kept in reverse; two halves that belong
together become one character. -/
def pushEscaped (reversed : CodeText) (p : CodePoint) : CodeText :=
  match reversed with
  | [] => [p]
  | q :: rest =>
    match q.joined? p with
    | some c => .scalar c :: rest
    | none => p :: q :: rest

end CodeText

end PageInvalidation.Text
