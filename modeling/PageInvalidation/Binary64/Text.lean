import PageInvalidation.Binary64.Shortest

/-! # Decimal texts of binary numbers

Two kinds of text: the shortest decimal that reads back, laid out as a `Style` says, and a fixed number
of places after the point. -/

namespace PageInvalidation.Binary64

/-! ### The shortest text -/

/-- How the shortest decimal is laid out: numbers whose first digit counts `10 ^ e` are written
without an exponent for `low ≤ e < high`; an exponent has at least `width` digits. The last three are
the texts of numbers that are not finite. -/
structure Style where
  low : Int
  high : Int
  width : Nat
  nan : String
  infinity : String
  negativeInfinity : String

/-- `n` zeros. -/
def zeros (n : Nat) : List Char := List.replicate n '0'

/-- Digits without an exponent, for a first digit that counts `10 ^ e`. -/
def positional (digits : List Char) (e : Int) : List Char :=
  if e < 0 then '0' :: '.' :: zeros (-e - 1).toNat ++ digits
  else
    let whole := (e + 1).toNat
    if digits.length ≤ whole then digits ++ zeros (whole - digits.length) ++ ['.', '0']
    else digits.take whole ++ '.' :: digits.drop whole

/-- Digits with an exponent, for a first digit that counts `10 ^ e`. -/
def scientific (width : Nat) (digits : List Char) (e : Int) : List Char :=
  let exponent := Nat.toDigits 10 e.natAbs
  digits.take 1 ++ (if digits.length ≤ 1 then [] else '.' :: digits.drop 1) ++
    'e' :: (if e < 0 then '-' else '+') :: zeros (width - exponent.length) ++ exponent

/-- The text of the magnitude of a finite number. -/
def Style.magnitude (style : Style) (d : Decimal) : List Char :=
  if d.digits == 0 then ['0', '.', '0']
  else
    let digits := Nat.toDigits 10 d.digits
    let e := d.exponent + digits.length - 1
    if style.low ≤ e ∧ e < style.high then positional digits e else scientific style.width digits e

/-- The shortest text that reads back as a number. -/
def Style.render (style : Style) (x : Binary64) : List Char :=
  if x.isNaN then style.nan.toList
  else if x.isInfinite then (if x.isNegative then style.negativeInfinity else style.infinity).toList
  else (if x.isNegative then ['-'] else []) ++ style.magnitude x.shortest

/-! ### A fixed number of places -/

/-- At least `n` digits, zeros first. -/
def padded (n : Nat) (digits : List Char) : List Char := zeros (n - digits.length) ++ digits

/-- The text with a fixed number of places after the point, rounded to nearest, ties to even. -/
def fixed (places : Nat) (x : Binary64) : List Char :=
  let sign := if x.isNegative then ['-'] else []
  match x.ratio? with
  | none => if x.isNaN then "nan".toList else sign ++ "inf".toList
  | some r =>
    let digits := padded (places + 1) (Nat.toDigits 10 (roundDiv (r.num * Nat.pow 10 places) r.den))
    let whole := digits.length - places
    sign ++ digits.take whole ++ '.' :: digits.drop whole

end PageInvalidation.Binary64
