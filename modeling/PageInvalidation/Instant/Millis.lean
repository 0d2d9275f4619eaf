import PageInvalidation.Binary64.Arithmetic
import PageInvalidation.Instant.Basic

/-! # Instants as milliseconds

Times travel as milliseconds since 1970. Both conversions go through seconds as a floating-point number:
writing takes the nearest number of seconds, multiplies by a thousand and drops the fraction; reading
takes the nearest number of seconds and rounds its fraction to microseconds, ties to even. -/

namespace PageInvalidation.Instant

/-- The milliseconds of an instant. -/
def toMillis (t : Instant) : Int :=
  let seconds := Binary64.ofRatio ⟨t.universal < 0, t.universal.natAbs, 1000000⟩
  ((seconds * Binary64.ofInt 1000).truncate?).getD 0

/-- The number of seconds nearest to a number of milliseconds. -/
def secondsOfMillis (millis : Int) : Binary64 := Binary64.ofRatio ⟨millis < 0, millis.natAbs, 1000⟩

/-- A finite number of seconds in microseconds: the fraction is multiplied first and then rounded. -/
def microsOfSeconds (r : Ratio) : Int :=
  let fraction := Binary64.ofRatio ⟨false, r.num % r.den, r.den⟩ * Binary64.ofInt 1000000
  let micros : Nat :=
    match fraction.ratio? with
    | some f => Binary64.roundDiv f.num f.den
    | none => 0
  let magnitude : Int := (r.num / r.den : Nat) * second + micros
  if r.negative then -magnitude else magnitude

/-- A number in a signed word of 32 bits. -/
def wrapWord (n : Int) : Int := Int.bmod n (Nat.pow 2 32)

/-- The instant of a number of milliseconds, in universal time. -/
def ofMillis (millis : Int) : Except Error Instant :=
  match (secondsOfMillis millis).ratio? with
  | none => .error .quotientTooLarge
  | some r =>
    let micros := microsOfSeconds r
    let seconds := micros / second
    let year := (Calendar.ofDays (micros / day)).year
    if seconds < -Nat.pow 2 63 ∨ Nat.pow 2 63 < seconds then .error .secondsTooLarge
    else if year - 1900 < -Nat.pow 2 31 ∨ Nat.pow 2 31 ≤ year - 1900 then .error .yearTooLarge
    else if wrapWord year < 1 ∨ 9999 < wrapWord year then .error (.yearOutOfRange (wrapWord year))
    else .ok ⟨micros, some 0⟩

end PageInvalidation.Instant
