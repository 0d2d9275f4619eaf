import PageInvalidation.Database.Script
import PageInvalidation.Proofs.Database.Attempts

/-! # What an attempt meets

What an attempt at a statement gives is decided by the reply that it meets (`Statement.result`). A reply is *passing* if
every attempt that meets it ends in a passing failure, at whichever call. Pauses between attempts can be made if they
are not too long (`isOk_paused_iff`). -/

namespace PageInvalidation.Database

/-- What an attempt at a statement gives that meets a reply. -/
def Statement.result (q : Statement) (r : Reply) : Except Fault Value :=
  ((run q.text q.params q.fetch : Act Reply Value).run.run r).1

namespace Reply

/-- Every attempt that meets a reply ends in a passing failure. -/
def IsPassing (r : Reply) : Prop := ∀ q : Statement, isPassing (q.result r) = true

/-- No attempt that meets a reply ends in a passing failure. -/
def IsSettled (r : Reply) : Prop := ∀ q : Statement, isPassing (q.result r) = false

theorem call_eq (c : Call) (r : Reply) : Host.call c r = (r.outcome c, r) := rfl

theorem result_rows (q : Statement) (rows : Option (List Value)) : q.result (.rows rows) =
    .ok (match q.fetch with
      | .nothing => .null
      | .one => (Reply.rows rows).value .fetchOne
      | .all => (Reply.rows rows).value .fetchAll) := by
  obtain ⟨text, params, fetch⟩ := q
  cases fetch <;> rfl

theorem isSettled_rows (rows : Option (List Value)) : (Reply.rows rows).IsSettled := fun q => by
  rw [result_rows]
  rfl

/-- A reply lets an attempt get to the execution of its statement. -/
structure Connects (r : Reply) : Prop where
  take : (r.outcome .takeConnection).isOk = true
  start : (r.outcome .beginTransaction).isOk = true
  cursor : (r.outcome .openCursor).isOk = true

theorem connects_rows (rows : Option (List Value)) : (Reply.rows rows).Connects := ⟨rfl, rfl, rfl⟩

end Reply

end PageInvalidation.Database
