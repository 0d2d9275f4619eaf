import PageInvalidation.Json.Display
import PageInvalidation.Number

/-! # Talking to a database

What is asked of a database, one call at a time: a connection is taken, a transaction begun, a cursor
opened, a statement executed, its rows fetched, and all of it is closed again. Any of the calls can fail. -/

namespace PageInvalidation.Database

/-- What kind of failure a database reports. -/
inductive FailureKind where
  | operational
  | interface
  | programming
  | integrity
  deriving DecidableEq, Repr

/-- A failure that a database reports. -/
structure Failure where
  kind : FailureKind
  message : String
  deriving DecidableEq, Repr

/-- Whether the same statement may succeed when it is tried again. -/
def Failure.isTransient (f : Failure) : Bool := f.kind == .operational || f.kind == .interface

/-- A call to the database, or a pause between two attempts. -/
inductive Call where
  | takeConnection
  | beginTransaction
  | openCursor
  | execute (query : String) (params : Value)
  | fetchOne
  | fetchAll
  | closeCursor
  | commit
  | rollback
  | giveBack
  | closeAll
  /-- A pause in seconds. -/
  | sleep (delay : Number)

/-- Which rows of a result are wanted. -/
inductive Fetch where
  | nothing
  | one
  | all
  deriving DecidableEq, Repr

/-- Why a pause cannot be made. -/
inductive PauseError where
  | negative
  | notNumber
  | tooLong
  deriving DecidableEq, Repr

/-- The words for an error. -/
def PauseError.message : PauseError → String
  | .negative => "sleep length must be non-negative"
  | .notNumber => "Invalid value NaN (not a number)"
  | .tooLong => "timestamp too large to convert to C _PyTime_t"

/-- Why a query gives nothing usable. -/
inductive Error where
  | failure (f : Failure)
  /-- A query that is not to be tried even once. -/
  | noAttempts
  /-- A pause that cannot be made. -/
  | pause (e : PauseError)
  /-- A row without a column. -/
  | missingColumn (column : String)
  /-- A row that has no columns. -/
  | notRow (value : Value)
  /-- A page title that is no text. -/
  | titleNotText (typeName : String)
  /-- A column value that can be in no set. -/
  | unhashable (typeName : String)

/-- The words for an error. -/
def Error.message : Error → String
  | .failure f => f.message
  | .noAttempts => "retry called with attempts < 1"
  | .pause e => e.message
  | .missingColumn column => Text.quoted column
  | .notRow (.arr _) => "list indices must be integers or slices, not str"
  | .notRow (.str _) => "string indices must be integers, not 'str'"
  | .notRow value => Text.quoted value.typeName ++ " object is not subscriptable"
  | .titleNotText typeName => Text.quoted typeName ++ " object has no attribute 'replace'"
  | .unhashable typeName => "unhashable type: " ++ Text.quoted typeName

/-- The value in a column of a row. -/
def column (name : String) : Value → Except Error Value
  | .obj members =>
    match Json.member? name members with
    | some v => .ok v
    | none => .error (.missingColumn name)
  | v => .error (.notRow v)

end PageInvalidation.Database
