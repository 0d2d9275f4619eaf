import PageInvalidation.Json.Display
import PageInvalidation.Number

/-! # Values as numbers

Free-standing numerals and other values taken as integers or floating-point numbers. -/

namespace PageInvalidation

/-- The integer that a text writes. -/
def integerOfText (s : Text.CodeText) : Except NumberError Int :=
  match Text.readInteger (Text.CodeText.replaced s) with
  | .ok n => .ok n
  | .error .malformed => .error (.malformedInteger s)
  | .error (.tooLong digits) => .error (.tooManyDigits digits)

/-- The integer that a value stands for. -/
def integerOfValue : Value → Except NumberError Int
  | .int n => .ok n
  | .bool b => .ok (if b then 1 else 0)
  | .float x => integerOfBinary x
  | .str s => integerOfText s
  | v => .error (.notNumber v.typeName)

/-- The number that a word for an infinite or undefined one stands for, in any case. -/
def binaryOfWord? (s : List Char) : Option Binary64 :=
  let (sign, s) := Text.spanSign s
  let negative := sign == some '-'
  let word := s.map Char.toLower
  if word = "inf".toList ∨ word = "infinity".toList then some (.infinity negative)
  else if word = "nan".toList then some (if negative then .neg .nan else .nan)
  else none

/-- The number that a free-standing numeral writes. -/
def binaryOfNumeral? (s : List Char) : Option Binary64 := do
  let n ← Text.Numeral.read? (← Text.ungrouped s)
  if n.digits.isEmpty then none
  else some (.ofDecimal n.isNegative (Text.ofDigits n.digits) n.scale)

/-- The floating-point number that a text writes. -/
def binaryOfText (s : Text.CodeText) : Except NumberError Binary64 :=
  let plain := Text.plainForm (Text.CodeText.replaced s)
  match binaryOfWord? plain <|> binaryOfNumeral? plain with
  | some x => .ok x
  | none => .error (.malformedNumber s)

end PageInvalidation
