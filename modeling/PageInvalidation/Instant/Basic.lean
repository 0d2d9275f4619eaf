import PageInvalidation.Instant.Calendar
import PageInvalidation.Text.Quoted

/-! # Instants

A reading of a calendar and a clock to the microsecond, possibly with the offset of the clock from
universal time. The reading is kept as microseconds since 1970-01-01T00:00:00 on that clock. A reading
without an offset is taken as universal time. -/

namespace PageInvalidation

/-- A calendar and clock reading. -/
structure Instant where
  /-- Microseconds on the clock since 1970-01-01T00:00:00. -/
  reading : Int
  /-- Microseconds by which the clock is ahead of universal time. -/
  offset : Option Int
  deriving DecidableEq, Repr

namespace Instant

/-- Microseconds in a second. -/
def second : Int := 1000000

/-- Microseconds in a day. -/
def day : Int := 86400 * second

/-- Microseconds of universal time since 1970-01-01T00:00:00. -/
def universal (t : Instant) : Int := t.reading - t.offset.getD 0

/-- The date of a reading. -/
def date (t : Instant) : Calendar.Date := Calendar.ofDays (t.reading / day)

/-- The microsecond of the day of a reading. -/
def ofDay (t : Instant) : Nat := (t.reading % day).toNat

/-- The reading for a date, a clock time in microseconds of the day and an offset. -/
def ofDate (d : Calendar.Date) (ofDay : Int) (offset : Option Int) : Instant :=
  ⟨Calendar.toDays d * day + ofDay, offset⟩

/-! ### Errors -/

/-- Why a text or a number is no instant. -/
inductive Error where
  /-- A text that is not of one of the written forms. -/
  | malformed (text : String)
  | yearOutOfRange (year : Int)
  | monthOutOfRange
  | dayOutOfRange
  | hourOutOfRange
  | minuteOutOfRange
  | secondOutOfRange
  /-- An offset of a day or more. -/
  | offsetOutOfRange (offset : Int)
  /-- Milliseconds beyond the largest floating-point number. -/
  | quotientTooLarge
  /-- Seconds beyond a signed word of 64 bits. -/
  | secondsTooLarge
  /-- A year beyond a signed word of 32 bits. -/
  | yearTooLarge
  deriving DecidableEq, Repr

/-- An offset in messages: days, seconds and microseconds, of which only the first may be negative; a
part that is zero is left out. -/
def displayedOffset (offset : Int) : String :=
  let parts :=
    [("days", offset / day), ("seconds", offset % day / second), ("microseconds", offset % second)]
  let shown := (parts.filter fun p => p.2 ≠ 0).map fun p => p.1 ++ "=" ++ toString p.2
  "datetime.timedelta(" ++ (if shown.isEmpty then "0" else String.intercalate ", " shown) ++ ")"

/-- The words for an error. -/
def Error.message : Error → String
  | .malformed text => "Invalid isoformat string: " ++ Text.quoted text
  | .yearOutOfRange year => "year " ++ toString year ++ " is out of range"
  | .monthOutOfRange => "month must be in 1..12"
  | .dayOutOfRange => "day is out of range for month"
  | .hourOutOfRange => "hour must be in 0..23"
  | .minuteOutOfRange => "minute must be in 0..59"
  | .secondOutOfRange => "second must be in 0..59"
  | .offsetOutOfRange offset =>
    "offset must be a timedelta strictly between -timedelta(hours=24) and timedelta(hours=24), not " ++
      displayedOffset offset ++ "."
  | .quotientTooLarge => "integer division result too large for a float"
  | .secondsTooLarge => "timestamp out of range for platform time_t"
  | .yearTooLarge => "[Errno 75] Value too large for defined data type"

/-! ### The written form -/

/-- A number with at least `width` digits. -/
def digits (width n : Nat) : List Char :=
  let s := Nat.toDigits 10 n
  List.replicate (width - s.length) '0' ++ s

/-- A clock time without its fraction. -/
def clock (seconds : Nat) : List Char :=
  digits 2 (seconds / 3600) ++ ':' :: digits 2 (seconds / 60 % 60) ++ ':' :: digits 2 (seconds % 60)

/-- Microseconds behind a point, unless there are none. -/
def fraction (micros : Nat) : List Char := if micros = 0 then [] else '.' :: digits 6 micros

/-- An offset; its seconds are left out if it has none. -/
def writeOffset (offset : Int) : List Char :=
  let n := offset.natAbs
  let seconds := n / 1000000
  let hm := (clock seconds).take 5
  let rest := if n % 60000000 = 0 then [] else (clock seconds).drop 5 ++ fraction (n % 1000000)
  (if offset < 0 then '-' else '+') :: hm ++ rest

/-- The standard written form: date, clock time, offset. -/
def write (t : Instant) : String :=
  let d := t.date
  let date := digits 4 d.year.toNat ++ '-' :: digits 2 d.month ++ '-' :: digits 2 d.day
  let micros := t.ofDay
  String.ofList (date ++ 'T' :: clock (micros / 1000000) ++ fraction (micros % 1000000) ++
    (match t.offset with | none => [] | some o => writeOffset o))

end Instant

end PageInvalidation
