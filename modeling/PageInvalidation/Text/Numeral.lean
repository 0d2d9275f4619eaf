import PageInvalidation.Text.Blank
import PageInvalidation.Text.DecimalDigit

/-! # Numerals

Decimal numerals as they stand in texts. `Numeral.read?` takes a text apart into sign, digits, fraction
and exponent; what a format demands of the parts (a whole part, no leading zero) is a condition on the
result. Free-standing numerals, as settings and table columns hold them, may also use the digits of any
script, blanks around, and single underscores between digits; `plainForm` and `ungrouped` remove these. -/

namespace PageInvalidation.Text

/-- The number that decimal digits write. -/
def ofDigits (digits : List Nat) : Nat := digits.foldl (fun n d => 10 * n + d) 0

/-- The ASCII digits at the start of a text, and the rest. -/
def spanDigits : List Char → List Nat × List Char
  | [] => ([], [])
  | c :: rest =>
    match asciiDigit? c with
    | none => ([], c :: rest)
    | some d => let (ds, rest') := spanDigits rest; (d :: ds, rest')

/-- A sign at the start of a text, and the rest. -/
def spanSign : List Char → Option Char × List Char
  | c :: rest => if c == '+' || c == '-' then (some c, rest) else (none, c :: rest)
  | [] => (none, [])

/-- A number with a sign. -/
def signed (sign : Option Char) (n : Nat) : Int := if sign == some '-' then -n else n

/-- The parts of a decimal numeral: the sign if it is written, the digits before the point, those
after it if there is one, and the exponent if there is one. -/
structure Numeral where
  sign : Option Char
  whole : List Nat
  fraction : Option (List Nat)
  exponent : Option Int
  deriving DecidableEq, Repr

namespace Numeral

/-- The exponent that a text consists of, where none is written by the empty text. -/
def readExponent? : List Char → Option (Option Int)
  | [] => some none
  | c :: rest =>
    if c == 'e' || c == 'E' then
      let (sign, rest) := spanSign rest
      let (digits, rest) := spanDigits rest
      if digits.isEmpty || !rest.isEmpty then none else some (some (signed sign (ofDigits digits)))
    else none

/-- The fraction at the start of a text, and the rest. -/
def spanFraction : List Char → Option (List Nat) × List Char
  | '.' :: rest => let (digits, rest) := spanDigits rest; (some digits, rest)
  | s => (none, s)

/-- The parts of a text that is a numeral. Each group of digits may be empty. -/
def read? (s : List Char) : Option Numeral :=
  let (sign, s) := spanSign s
  let (whole, s) := spanDigits s
  let (fraction, s) := spanFraction s
  (readExponent? s).map fun exponent => ⟨sign, whole, fraction, exponent⟩

/-- Whether neither a point nor an exponent is written. -/
def isWhole (n : Numeral) : Bool := n.fraction.isNone && n.exponent.isNone

/-- Whether the sign is a minus. -/
def isNegative (n : Numeral) : Bool := n.sign == some '-'

/-- All digits before the exponent. -/
def digits (n : Numeral) : List Nat := n.whole ++ n.fraction.getD []

/-- The power of ten that the last digit counts. -/
def scale (n : Numeral) : Int := n.exponent.getD 0 - (n.fraction.getD []).length

end Numeral

/-! ### Free-standing numerals -/

/-- Blanks that may stand around a free-standing numeral. -/
def isPadding (c : Char) : Bool := c == ' ' || (9 ≤ c.toNat && c.toNat ≤ 13)

/-- A character of a free-standing numeral in ASCII: digits of all scripts become ASCII digits, and
blanks beyond ASCII spaces. -/
def plainChar (c : Char) : Char :=
  if c.toNat < 127 then c
  else if isBlank c then ' '
  else
    match decimalValue? c with
    | some d => Char.ofNat ('0'.toNat + d)
    | none => c

/-- A free-standing numeral in ASCII, without the blanks around it. -/
def plainForm (s : List Char) : List Char := trim isPadding (s.map plainChar)

/-- The text that follows a character without its underscores, each of which must stand between two
digits. -/
def ungroupedAfter (previous : Char) : List Char → Option (List Char)
  | [] => if previous == '_' then none else some []
  | c :: rest =>
    if c == '_' then
      if previous.isDigit then ungroupedAfter c rest else none
    else if previous == '_' && !c.isDigit then none
    else (ungroupedAfter c rest).map (c :: ·)

/-- A text without its underscores, each of which must stand between two digits. -/
def ungrouped (s : List Char) : Option (List Char) := ungroupedAfter ' ' s

/-- The most digits that an integer numeral may have. -/
def maxDigits : Nat := 4300

/-- An integer with no more digits than that. -/
def IsShort (n : Int) : Prop := (Nat.toDigits 10 n.natAbs).length ≤ maxDigits

instance (n : Int) : Decidable (IsShort n) := inferInstanceAs (Decidable (_ ≤ _))

/-- The numeral of an integer, if it is not too long. -/
def decimal? (n : Int) : Option String := if IsShort n then some (toString n) else none

/-- Why a text is no integer numeral. -/
inductive IntegerDefect where
  | malformed
  | tooLong (digits : Nat)
  deriving DecidableEq, Repr

/-- Whether a character can stand in the digits of a free-standing numeral. -/
def isGrouped (c : Char) : Bool := c.isDigit || c == '_'

/-- The integer that a free-standing numeral writes. The digits at the start settle whether it is too
long, whatever follows them. -/
def readInteger (s : List Char) : Except IntegerDefect Int :=
  let (sign, s) := spanSign (plainForm s)
  match ungrouped (s.takeWhile isGrouped) with
  | none => .error .malformed
  | some run =>
    let digits := (spanDigits run).1
    if maxDigits < digits.length then .error (.tooLong digits.length)
    else if digits.isEmpty || !(s.dropWhile isGrouped).isEmpty then .error .malformed
    else .ok (signed sign (ofDigits digits))

end PageInvalidation.Text
