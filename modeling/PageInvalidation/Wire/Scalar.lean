import PageInvalidation.Binary64.Arithmetic
import PageInvalidation.Text.Numeral
import PageInvalidation.Wire.Checked

/-! # Scalars of a message

Texts, integers, truth values and free values. Integers and truth values are also taken from other values
that stand for them without doubt. -/

namespace PageInvalidation.Wire

/-- A text. -/
def text : Value → Checked Text.CodeText
  | .str s => .ok s
  | _ => .fail .stringType

/-- A value that may be null. -/
def nullable {α : Type} (decode : Value → Checked α) : Value → Checked (Option α)
  | .null => .ok none
  | v => (decode v).map some

/-- Any object. -/
def anyObject (v : Value) : Checked Members :=
  match v.withoutRepeats with
  | .obj members => .ok members
  | _ => .fail .dictType

/-! ### Integers -/

/-- Whether the digits at the start of a text are too many for an integer. -/
def isOverlong (s : List Char) : Bool :=
  let digits := (Text.spanDigits s).1
  digits.head? != some 0 && Text.maxDigits < digits.length

/-- A text taken apart into a minus sign, if it has one, and what follows. -/
def spanMinus : List Char → Bool × List Char
  | '-' :: rest => (true, rest)
  | s => (false, s)

/-- The integer that a text writes in plain form: a minus sign perhaps, and digits without zeros in
front. -/
def plainInteger? (s : List Char) : Option Int :=
  let (negative, s) := spanMinus s
  match Text.spanDigits s with
  | (digits, []) =>
    if digits.isEmpty || digits.head? == some 0 && digits.length != 1 || isOverlong s then none
    else some (if negative then -Text.ofDigits digits else Text.ofDigits digits)
  | _ => none

/-- A text without its plus sign, behind which no other sign may stand. -/
def withoutPlus : List Char → Option (List Char)
  | '+' :: rest => if rest.head?.any fun c => c == '+' || c == '-' then none else some rest
  | s => some s

/-- A text without the zeros in front of its other digits or of a minus sign; underscores among them go
too. One zero stays if nothing or a point follows. -/
def withoutZeros (s : List Char) : Option (List Char) :=
  let zeros := s.takeWhile fun c => c == '0' || c == '_'
  let rest := s.dropWhile fun c => c == '0' || c == '_'
  if zeros.head? == some '_' then none
  else if rest.head?.any fun c => c.isDigit || c == '-' then some rest
  else if zeros.getLast? == some '0' && (rest.isEmpty || rest.head? == some '.') then some ('0' :: rest)
  else none

/-- A text without a point and the zeros behind it, of which there must be one. -/
def withoutFraction (s : List Char) : List Char :=
  match s.dropWhile (· != '.') with
  | '.' :: zeros =>
    if !zeros.isEmpty && zeros.all (· == '0') then s.takeWhile (· != '.') else s
  | _ => s

/-- A text without underscores, none of which may be at an end or beside another. -/
def withoutUnderscores : List Char → Option (List Char)
  | [] => some []
  | '_' :: _ => none
  | [_, '_'] => none
  | c :: '_' :: rest => (withoutUnderscores rest).map (c :: ·)
  | c :: rest => (withoutUnderscores rest).map (c :: ·)

/-- The plain form of a text that writes an integer. -/
def plainForm (s : List Char) : Option (List Char) := do
  let (negative, s) := spanMinus (← withoutPlus s)
  let s ← withoutUnderscores (withoutFraction (← withoutZeros s))
  return if negative then '-' :: s else s

/-- The integer that a text writes: digits, perhaps with zeros in front and single underscores between
them, with a sign in front, zeros after a point, and white space around. Too many digits are told from
other faults only where nothing but a minus sign stands in front of them, not even white space. -/
def integerOfNumeral (s : List Char) : Checked Int :=
  if isOverlong (spanMinus s).2 then .fail .intParsingSize
  else
    match (plainForm (Text.trim Text.isWhiteSpace s)).bind plainInteger? with
    | some n => .ok n
    | none => .fail .intParsing

/-- The integer that a floating-point number is, if it is below `2 ^ 63` in size. -/
def integerOfBinary (x : Binary64) : Checked Int :=
  match x.truncate? with
  | none => .fail .finiteNumber
  | some n =>
    if !x.isIntegral then .fail .intFromFloat
    else if n.natAbs < Nat.pow 2 63 then .ok n
    else .fail .intParsingSize

/-- An integer. -/
def integer : Value → Checked Int
  | .int n => .ok n
  | .bool b => .ok (if b then 1 else 0)
  | .float x => integerOfBinary x
  | .str s => integerOfNumeral (Text.CodeText.replaced s)
  | _ => .fail .intType

/-! ### Truth values -/

/-- Words for true, in lower case. -/
def trueWords : List String := ["1", "t", "y", "on", "yes", "true"]

/-- Words for false, in lower case. -/
def falseWords : List String := ["0", "f", "n", "no", "off", "false"]

/-- The truth value that a word stands for, in any case. -/
def truthOfWord (s : Text.CodeText) : Checked Bool :=
  let word := String.ofList ((Text.CodeText.replaced s).map Char.toLower)
  if word ∈ trueWords then .ok true
  else if word ∈ falseWords then .ok false
  else .fail .boolParsing

/-- The truth value that an integer stands for. Integers beyond a signed word of 64 bits are not looked
at. -/
def truthOfInteger (n : Int) : Checked Bool :=
  if n = 0 then .ok false
  else if n = 1 then .ok true
  else if -Nat.pow 2 63 ≤ n ∧ n < Nat.pow 2 63 then .fail .boolParsing
  else .fail .boolType

/-- The truth value that a floating-point number stands for. Only those that are integers are looked at. -/
def truthOfBinary (x : Binary64) : Checked Bool :=
  if x.equalsInt 0 then .ok false
  else if x.equalsInt 1 then .ok true
  else
    match integerOfBinary x with
    | .ok _ => .fail .boolParsing
    | .error _ => .fail .boolType

/-- A truth value. -/
def truth : Value → Checked Bool
  | .bool b => .ok b
  | .int n => truthOfInteger n
  | .float x => truthOfBinary x
  | .str s => truthOfWord s
  | _ => .fail .boolType

end PageInvalidation.Wire
