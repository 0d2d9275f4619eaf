/-! # Digit characters

Unicode groups its decimal digits in runs of ten consecutive characters, one run per script, so a run
is known by its zero. Further characters (superscripts, subscripts, circled figures) are digits
without a decimal value: `isDigit` admits them, `decimalValue?` gives them none. -/

namespace PageInvalidation.Text

/-- Code points of the zeros of the decimal digit runs, ascending. -/
def decimalZeros : List Nat :=
  [48, 1632, 1776, 1984, 2406, 2534, 2662, 2790, 2918, 3046, 3174, 3302, 3430, 3558, 3664, 3792,
   3872, 4160, 4240, 6112, 6160, 6470, 6608, 6784, 6800, 6992, 7088, 7232, 7248, 42528, 43216,
   43264, 43472, 43504, 43600, 44016, 65296, 66720, 68912, 69734, 69872, 69942, 70096, 70384,
   70736, 70864, 71248, 71360, 71472, 71904, 72016, 72784, 73040, 73120, 92768, 92864, 93008,
   120782, 120792, 120802, 120812, 120822, 123200, 123632, 125264, 130032]

/-- Code point ranges of the digits that have no decimal value, ascending. -/
def plainDigitRanges : List (Nat × Nat) :=
  [(178, 179), (185, 185), (4969, 4977), (6618, 6618), (8304, 8304), (8308, 8313), (8320, 8329),
   (9312, 9320), (9332, 9340), (9352, 9360), (9450, 9450), (9461, 9469), (9471, 9471),
   (10102, 10110), (10112, 10120), (10122, 10130), (68160, 68163), (69216, 69224), (69714, 69722),
   (127232, 127242)]

/-- The value of a decimal digit. -/
def decimalValue? (c : Char) : Option Nat :=
  (decimalZeros.find? fun first => first ≤ c.toNat && c.toNat < first + 10).map (c.toNat - ·)

/-- A digit: decimal, or one that only stands for a digit. -/
def isDigit (c : Char) : Bool :=
  (decimalValue? c).isSome || plainDigitRanges.any fun r => r.1 ≤ c.toNat && c.toNat ≤ r.2

/-- The value of a digit from `0` to `9` of the ASCII range. -/
def asciiDigit? (c : Char) : Option Nat :=
  if c.isDigit then some (c.toNat - '0'.toNat) else none

end PageInvalidation.Text
