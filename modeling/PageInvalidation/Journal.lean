import PageInvalidation.Fault
import PageInvalidation.Text.CodeText

/-! # Computations that keep a journal

The parts of the library that talk to the outside are computations over a state `σ` that can fail. Such a
state holds at least a journal of notes, the log lines written so far. What was done before a failure
stays done. -/

namespace PageInvalidation

/-- How important a note is. -/
inductive Level where
  | debug
  | info
  | warning
  | error
  deriving DecidableEq, Repr

/-- The word for a level. -/
def Level.word : Level → String
  | .debug => "DEBUG"
  | .info => "INFO"
  | .warning => "WARNING"
  | .error => "ERROR"

/-- A log line: who wrote it, how important it is, and its text. -/
structure Note where
  level : Level
  source : String
  text : Text.CodeText

/-- The characters of a note's line: level, source and text. -/
def Note.line (n : Note) : Text.CodeText :=
  Text.CodeText.ofString (n.level.word ++ " " ++ n.source ++ " ") ++ n.text

/-- A state with a journal. -/
class Journalled (σ : Type) where
  /-- The state with a further note. -/
  record : Note → σ → σ

/-- A computation over a state that can fail. -/
abbrev Act (σ : Type) := ExceptT Fault (StateM σ)

namespace Act

variable {σ α : Type}

/-- Changes the state. -/
def update (f : σ → σ) : Act σ Unit := modifyThe σ f

/-- Reads something off the state and changes it. -/
def observe (f : σ → α × σ) : Act σ α := modifyGetThe σ f

/-- A computation without effects. -/
def ofExcept {ε : Type} (fault : ε → Fault) (r : Except ε α) : Act σ α :=
  match r with
  | .ok a => pure a
  | .error e => throw (fault e)

/-- What a computation comes to: its result, or the fault that it ends in. -/
def outcome (x : Act σ α) : Act σ (Except Fault α) :=
  tryCatch (Except.ok <$> x) fun fault => pure (.error fault)

/-- Writes a note. -/
def note [Journalled σ] (level : Level) (source : String) (text : Text.CodeText) : Act σ Unit :=
  update (Journalled.record ⟨level, source, text⟩)

/-- Writes a note if its text can be made up. -/
def noteIf [Journalled σ] (level : Level) (source : String) : Option Text.CodeText → Act σ Unit
  | some text => note level source text
  | none => pure ()

end Act

end PageInvalidation
