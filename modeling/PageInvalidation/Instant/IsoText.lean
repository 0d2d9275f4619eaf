import PageInvalidation.Instant.Basic
import PageInvalidation.Text.Numeral
import PageInvalidation.Text.Utf8

/-! # Reading written instants

Reads the standard's written forms of dates (by month or by week, with or without hyphens) and clock
times (with or without colons, down to fractions of a second, with an offset or `Z`). The reader works
on the bytes of the text, taken as characters: digits and marks are single bytes, and the byte or bytes
between date and time may be anything. -/

namespace PageInvalidation.Instant

namespace IsoText

/-! ### Digits -/

/-- A number of exactly `n` digits at the start of a text, and the rest. -/
def takeDigits (n : Nat) (s : List Char) : Option (Nat × List Char) :=
  match (s.take n).mapM Text.asciiDigit? with
  | some ds => if ds.length = n then some (Text.ofDigits ds, s.drop n) else none
  | none => none

/-- Whether a text is at its end, which a NUL character marks too. -/
def atEnd (s : List Char) : Bool := s.headD '\x00' == '\x00'

/-- Whether the character at a place is a digit. -/
def digitAt (s : List Char) (i : Nat) : Bool := (s.getD i ' ').isDigit

/-! ### Dates -/

/-- Where the date ends in a text that starts with a year and a week, without hyphens. The day of the week
may be left out; then an even number of digits of the clock follows the separator. -/
def weekEnd (s : List Char) : Nat :=
  let digits := ((s.drop 7).takeWhile Char.isDigit).length
  if digits < 2 then 7 + digits else if digits % 2 == 1 then 7 else 8

/-- Where the date ends in a text. -/
def dateEnd (s : List Char) : Nat :=
  if s.length = 7 then 7
  else if s[4]? = some '-' then
    if s[5]? = some 'W' then
      if s[8]? = some '-' then if digitAt s 10 then 8 else 10 else 8
    else 10
  else if s[4]? = some 'W' then weekEnd s
  else 8

/-- A day as a date; before the first year a day has no month, which is written as month 0. -/
def dateOfDay (days : Int) : Calendar.Date :=
  if days < Calendar.toDays ⟨1, 1, 1⟩ then ⟨1, 0, 0⟩ else Calendar.ofDays days

/-- The date of a day of a week; the year must have such a week. -/
def ofWeek (year week weekday : Nat) : Option Calendar.Date :=
  if 1 ≤ week ∧ week ≤ Calendar.weeksIn year ∧ 1 ≤ weekday ∧ weekday ≤ 7 then
    some (dateOfDay (Calendar.firstMonday year + (week - 1 : Nat) * 7 + (weekday - 1 : Nat)))
  else none

/-- A hyphen if hyphens are in use. -/
def skipHyphen (hyphens : Bool) (s : List Char) : Option (List Char) :=
  if hyphens then match s with | '-' :: rest => some rest | _ => none else some s

/-- A date of a given length at the start of a text. -/
def readDate (length : Nat) (s : List Char) : Option Calendar.Date := do
  let (year, s) ← takeDigits 4 s
  let hyphens := s.head? == some '-'
  let s := if hyphens then s.drop 1 else s
  if s.head? == some 'W' then
    let (week, s) ← takeDigits 2 (s.drop 1)
    if 7 + hyphens.toNat < length then
      let (weekday, _) ← takeDigits 1 (← skipHyphen hyphens s)
      ofWeek year week weekday
    else ofWeek year week 1
  else
    let (month, s) ← takeDigits 2 s
    let (day, _) ← takeDigits 2 (← skipHyphen hyphens s)
    some ⟨year, month, day⟩

/-! ### Clock times -/

/-- Hours, minutes, seconds and microseconds. -/
structure Clock where
  hour : Nat
  minute : Nat
  second : Nat
  micro : Nat

/-- The clock time with some fields read, the others zero. -/
def Clock.ofFields (fields : List Nat) (micro : Nat) : Clock :=
  ⟨fields.getD 0 0, fields.getD 1 0, fields.getD 2 0, micro⟩

/-- The clock time in microseconds. -/
def Clock.toMicros (c : Clock) : Int :=
  (c.hour * 3600 + c.minute * 60 + c.second : Nat) * Instant.second + c.micro

/-- The fraction of a second that ends a clock time: up to six digits count, further ones are passed over.
Gives whether anything stands behind it. -/
def readFraction (s rest : List Char) : Option (Nat × Bool) := do
  let n := min 6 s.length
  let (value, s) ← takeDigits n s
  some (value * Nat.pow 10 (6 - n), !atEnd (s.dropWhile Char.isDigit ++ rest))

/-- The remaining fields of a clock time, of which `due` may follow. `colons` tells whether the fields are
separated; the first separator settles it. Gives whether anything stands behind the time. -/
def readFields : (due : Nat) → (colons : Option Bool) → (read : List Nat) → (s rest : List Char) →
    Option (Clock × Bool)
  | 0, _, read, s, rest => (readFraction s rest).map fun (micro, more) => (.ofFields read micro, more)
  | due + 1, colons, read, s, rest => do
    let (value, s) ← takeDigits 2 s
    let read := read ++ [value]
    let next := (s ++ rest).headD '\x00'
    let colons := colons.getD (next == ':')
    if s.length ≤ 1 then some (.ofFields read 0, !atEnd (s ++ rest))
    else if colons && next == ':' then readFields due (some colons) read (s.drop 1) rest
    else if next == '.' || next == ',' then
      (readFraction (s.drop 1) rest).map fun (micro, more) => (.ofFields read micro, more)
    else if colons then none
    else readFields due (some colons) read s rest

/-- A clock time in `s`, with `rest` behind it; gives whether anything stands behind the time. -/
def readClock (s rest : List Char) : Option (Clock × Bool) := readFields 3 none [] s rest

/-- A clock time with an optional offset. -/
def readTime (s : List Char) : Option (Clock × Option Int) := do
  let isMark (c : Char) : Bool := c == '+' || c == '-' || c == 'Z'
  let (s, zone) := (s.takeWhile (!isMark ·), s.dropWhile (!isMark ·))
  let (clock, more) ← readClock s zone
  match zone with
  | [] => if more then none else some (clock, none)
  | 'Z' :: rest => if atEnd rest then some (clock, some 0) else none
  | sign :: rest =>
    let (offset, more) ← readClock rest []
    if more then none
    else
      let whole := (offset.toMicros - offset.micro)
      let micros := if whole = 0 then 0 else offset.toMicros
      some (clock, some (if sign == '-' then -micros else micros))

/-! ### Instants -/

/-- How many bytes the separator behind the date takes. -/
def separatorLength (s : List Char) : Nat :=
  match s with
  | [] => 1
  | c :: _ =>
    if c.toNat < 0x80 then 1
    else if c.toNat / 16 == 14 then 3
    else if c.toNat / 16 == 15 then 4
    else 2

/-- The parts of a written instant. -/
def readParts (s : List Char) : Option (Calendar.Date × Clock × Option Int) := do
  let length := dateEnd s
  let date ← readDate length s
  let tail := s.drop length
  if tail.isEmpty then some (date, ⟨0, 0, 0, 0⟩, none)
  else
    let (clock, offset) ← readTime (tail.drop (separatorLength tail))
    some (date, clock, offset)

/-- An instant whose parts are all in range. -/
def checked (d : Calendar.Date) (c : Clock) (offset : Option Int) : Except Error Instant :=
  if (offset.getD 0).natAbs ≥ Instant.day.natAbs then .error (.offsetOutOfRange (offset.getD 0))
  else if d.year < 1 ∨ 9999 < d.year then .error (.yearOutOfRange d.year)
  else if d.month < 1 ∨ 12 < d.month then .error .monthOutOfRange
  else if d.day < 1 ∨ Calendar.daysIn d.year d.month < d.day then .error .dayOutOfRange
  else if 23 < c.hour then .error .hourOutOfRange
  else if 59 < c.minute then .error .minuteOutOfRange
  else if 59 < c.second then .error .secondOutOfRange
  else .ok (ofDate d c.toMicros offset)

end IsoText

/-- The instant that a text writes. -/
def read (text : String) : Except Error Instant :=
  match IsoText.readParts ((Text.Utf8.encode text.toList).map fun b => Char.ofNat b.toNat) with
  | none => .error (.malformed text)
  | some (d, c, offset) => IsoText.checked d c offset

end PageInvalidation.Instant
