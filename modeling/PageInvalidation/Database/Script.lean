import PageInvalidation.Database.Session

/-! # Scripted databases

A database of which it is known beforehand what it replies: for each attempt at a statement the calls that fail,
and the rows of the result. Pauses are those of a clock that counts nanoseconds in 64 bits. -/

namespace PageInvalidation.Database

/-! ### Pauses -/

/-- The first number of nanoseconds that a clock cannot count. -/
def clockRange : Int := 9223372036854775808

/-- Why a pause of some seconds cannot be made, if it cannot. -/
def pauseError? : Number → Option PauseError
  | .whole n =>
    if n * 1000000000 < -clockRange || clockRange ≤ n * 1000000000 then some .tooLong
    else if n < 0 then some .negative
    else none
  | .binary x =>
    let nanos := x * .ofInt 1000000000
    if nanos.isNaN then some .notNumber
    else if nanos.lt (.ofInt (-clockRange)) || (Binary64.ofInt clockRange).le nanos then some .tooLong
    else if nanos.lt (.zero false) then some .negative
    else none

/-- What a pause of some seconds comes to. -/
def paused (delay : Number) : Except Fault Value :=
  match pauseError? delay with
  | some e => .error (.database (.pause e))
  | none => .ok .null

/-! ### Replies -/

/-- What an attempt at a statement meets: the faults of its calls, and the rows of the result. No rows at all are
possible. -/
structure Reply where
  fault : Call → Option Fault
  result : Option (List Value)

namespace Reply

/-- A result. -/
def rows (result : Option (List Value)) : Reply := ⟨fun _ => none, result⟩

/-- A statement that cannot be executed. -/
def failure (f : Failure) : Reply where
  fault
    | .execute _ _ => some (.database (.failure f))
    | _ => none
  result := none

/-- What is reported when rows are fetched of which there are none. -/
def nothingToFetch : Failure := ⟨.programming, "no results to fetch"⟩

/-- A statement without a result. -/
def noResult : Reply where
  fault
    | .fetchOne | .fetchAll => some (.database (.failure nothingToFetch))
    | _ => none
  result := none

/-- What a call gives if it does not fail. -/
def value (r : Reply) : Call → Value
  | .fetchOne =>
    match r.result with
    | some (row :: _) => row
    | _ => .null
  | .fetchAll =>
    match r.result with
    | some rows => .arr rows
    | none => .null
  | _ => .null

/-- What a call comes to. Pauses are not the database's. -/
def outcome (r : Reply) : Call → Except Fault Value
  | .sleep delay => paused delay
  | c =>
    match r.fault c with
    | some e => .error e
    | none => .ok (r.value c)

/-- A database that replies the same to every attempt. -/
instance : Host Reply := ⟨fun c r => (r.outcome c, r)⟩

end Reply

/-- Whether a call is the last of an attempt, given whether it succeeds. -/
def Call.ends (c : Call) (succeeded : Bool) : Bool :=
  match c with
  | .giveBack => true
  | .takeConnection => !succeeded
  | _ => false

end PageInvalidation.Database
