import PageInvalidation.Database.Session

/-! # Trying again

An operation that fails for a passing reason is tried again after a pause, which doubles each time. After
the last attempt there is no pause, and its failure stands. A pause that fails ends the trying. -/

namespace PageInvalidation.Database

variable {σ α : Type} [Host σ] [Journalled σ]

/-- Who writes the notes of this module. -/
def source : String := "usage_tracking.db"

/-- Notes a failed attempt and pauses, for twice as long after each further one. -/
def pause (base : Number) (done : Nat) (fault : Fault) : Act σ Unit := do
  Act.note .warning source (Text.CodeText.ofString
    ("transient database error attempt=" ++ toString (done + 1) ++ " error=" ++ fault.message))
  let delay ← Act.ofExcept .number (base.mul (.whole (Nat.pow 2 done)))
  let _ ← call (.sleep delay)

/-- Tries an operation when `done` attempts have failed and `left` are left. -/
def retryFrom (base : Number) (operation : Act σ α) : (left done : Nat) → Act σ α
  | 0, _ => throw (.database .noAttempts)
  | left + 1, done =>
    tryCatch operation fun fault =>
      if fault.isTransient && left != 0 then do
        pause base done fault
        retryFrom base operation left (done + 1)
      else throw fault

/-- Tries an operation a number of times. -/
def retry (attempts : Int) (base : Number) (operation : Act σ α) : Act σ α :=
  retryFrom base operation attempts.toNat 0

/-- How often a query is tried. -/
def defaultAttempts : Int := 4

/-- The first pause: a fifth of a second. -/
def defaultDelay : Number := .binary (.ofDecimal false 2 (-1))

/-- Executes a query, a few times if needed. -/
def query (text : String) (params : Value) (fetch : Fetch) : Act σ Value :=
  retry defaultAttempts defaultDelay (run text params fetch)

end PageInvalidation.Database
