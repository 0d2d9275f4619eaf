import PageInvalidation.Binary64.Arithmetic
import PageInvalidation.Text.Numeral
import PageInvalidation.Text.Quoted

/-! # Numbers

Integers and floating-point numbers side by side, as clocks show times and as intervals and delays are
given. Integers are unbounded and stay exact among themselves. Where a floating-point number takes part,
an integer is first rounded to one, which fails if it is beyond their range; only comparisons are exact
throughout. -/

namespace PageInvalidation

/-- Why something is no number, or not one of the wanted kind. -/
inductive NumberError where
  | malformedInteger (text : Text.CodeText)
  | tooManyDigits (digits : Nat)
  /-- An integer with too many digits to be written. -/
  | unwritable
  | infinite
  | undefined
  | notNumber (typeName : String)
  | malformedNumber (text : Text.CodeText)
  /-- An integer beyond the range of floating-point numbers. -/
  | tooLarge
  /-- A quotient of integers beyond the range of floating-point numbers. -/
  | quotientTooLarge
  /-- A division by zero, of integers or of floating-point numbers. -/
  | zeroDivisor (binary : Bool)
  deriving DecidableEq, Repr

/-- How much of a quoted text is shown that should be an integer. -/
def NumberError.shownLength : Nat := 200

/-- The words for an error. -/
def NumberError.message : NumberError → String
  | .malformedInteger text =>
    "invalid literal for int() with base 10: " ++
      String.ofList ((Text.quoted text).toList.take NumberError.shownLength)
  | .tooManyDigits digits =>
    "Exceeds the limit (" ++ toString Text.maxDigits ++
      " digits) for integer string conversion: value has " ++ toString digits ++
      " digits; use sys.set_int_max_str_digits() to increase the limit"
  | .unwritable =>
    "Exceeds the limit (" ++ toString Text.maxDigits ++
      " digits) for integer string conversion; use sys.set_int_max_str_digits() to increase the limit"
  | .infinite => "cannot convert float infinity to integer"
  | .undefined => "cannot convert float NaN to integer"
  | .notNumber typeName =>
    "int() argument must be a string, a bytes-like object or a real number, not " ++
      Text.quoted typeName
  | .malformedNumber text => "could not convert string to float: " ++ Text.quoted text
  | .tooLarge => "int too large to convert to float"
  | .quotientTooLarge => "integer division result too large for a float"
  | .zeroDivisor binary => if binary then "float division by zero" else "division by zero"

/-- An integer or a floating-point number. -/
inductive Number where
  | whole (n : Int)
  | binary (x : Binary64)
  deriving DecidableEq, Repr

/-- The integer part of a floating-point number. -/
def integerOfBinary (x : Binary64) : Except NumberError Int :=
  match x.truncate? with
  | some n => .ok n
  | none => .error (if x.isNaN then .undefined else .infinite)

namespace Number

/-- The integer part. -/
def toInteger : Number → Except NumberError Int
  | .whole n => .ok n
  | .binary x => integerOfBinary x

/-- The nearest floating-point number. -/
def toBinary : Number → Except NumberError Binary64
  | .whole n => if (Binary64.ofInt n).isFinite then .ok (.ofInt n) else .error .tooLarge
  | .binary x => .ok x

/-! ### Arithmetic -/

/-- The result of an operation that is exact on integers and rounded otherwise. -/
def combine (exact : Int → Int → Int) (rounded : Binary64 → Binary64 → Binary64) :
    Number → Number → Except NumberError Number
  | .whole m, .whole n => .ok (.whole (exact m n))
  | a, b => do return .binary (rounded (← a.toBinary) (← b.toBinary))

/-- The sum. -/
def add : Number → Number → Except NumberError Number := combine (· + ·) (· + ·)

/-- The difference. -/
def sub : Number → Number → Except NumberError Number := combine (· - ·) (· - ·)

/-- The product. -/
def mul : Number → Number → Except NumberError Number := combine (· * ·) (· * ·)

/-- The quotient of integers, rounded once. -/
def divideWhole (m n : Int) : Except NumberError Binary64 :=
  if n = 0 then .error (.zeroDivisor false)
  else
    let x := Binary64.ofRatio ⟨decide (m < 0) != decide (n < 0), m.natAbs, n.natAbs⟩
    if x.isFinite then .ok x else .error .quotientTooLarge

/-- The quotient of floating-point numbers. -/
def divideBinary (x y : Binary64) : Except NumberError Binary64 :=
  if y.isZero then .error (.zeroDivisor true) else .ok (x / y)

/-- The quotient, a floating-point number also for integers. -/
def divide : Number → Number → Except NumberError Binary64
  | .whole m, .whole n => divideWhole m n
  | a, b => do divideBinary (← a.toBinary) (← b.toBinary)

/-! ### Order -/

/-- The order of an integer and a floating-point number; there is none with an undefined one. -/
def compareInteger (n : Int) (x : Binary64) : Option Ordering :=
  if x.isNaN then none
  else
    match x.ratio? with
    | some r => some (compare (n * r.den) r.signedNum)
    | none => some (if x.isNegative then .gt else .lt)

/-- Less than; an undefined number is in no relation. -/
def lt : Number → Number → Bool
  | .whole m, .whole n => m < n
  | .whole m, .binary y => compareInteger m y == some .lt
  | .binary x, .whole n => compareInteger n x == some .gt
  | .binary x, .binary y => x.lt y

end Number

end PageInvalidation
