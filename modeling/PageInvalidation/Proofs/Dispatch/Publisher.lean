import PageInvalidation.Proofs.Dispatch.Ledger
import PageInvalidation.Proofs.Journal

/-! # What publishing does to the world

Offering, polling and flushing make calls and write notes; the broker and the number of rejections are then
those of the ledger of these calls (`World.after`). -/

namespace PageInvalidation.Dispatch

/-- The world after some calls, with the journal that is kept then. -/
def World.after (w : World) (cs : List Call) (notes : List Note) : World :=
  { w with
    notes := notes
    calls := w.calls ++ cs
    broker := ((Ledger.opened w.broker).after cs).broker
    rejections := w.rejections + ((Ledger.opened w.broker).after cs).rejected.length }

theorem World.after_after (w : World) (cs cs' : List Call) (notes notes' : List Note) :
    (w.after cs notes).after cs' notes' = w.after (cs ++ cs') notes' := by
  simp [World.after, Ledger.after_append, Ledger.after_eq_continuing ((Ledger.opened w.broker).after cs),
    Ledger.continuing, Nat.add_assoc]

theorem World.run_call {c : Call} (h : ∀ l : Ledger, l.step c = l) (w : World) :
    (World.call c).run.run w = (.ok (), w.after [c] w.notes) := by
  simp only [World.after, Ledger.after_cons, Ledger.after_nil, h]
  rfl

theorem World.offers_after_published (w : World) (r : Record) (notes : List Note) :
    (w.after [.produce r, .poll] notes).broker.refusals = w.broker.refusals ∧
      (w.after [.produce r, .poll] notes).broker.offered = w.broker.offered + 1 := by
  simp only [World.after, Ledger.opened, Ledger.after_cons, Ledger.after_nil, Ledger.step, Ledger.settle,
    Broker.settle, Publisher.nextOffer, Publisher.nextPoll]
  split <;> exact ⟨rfl, rfl⟩

namespace Publisher

variable {w : World} {r : Record} {timeout : Number}

theorem run_forM_report : ∀ (fates : List (Record × Fate)) (w : World), ∃ notes,
    (fates.forM report).run.run w = (.ok (), { w with
      notes := notes
      rejections := w.rejections + (fates.filter fun e => e.2.isRejected).length })
  | [], w => ⟨w.notes, rfl⟩
  | (r, fate) :: fates, w => by
    rw [Act.run_forM_cons]
    cases fate with
    | rejected reason =>
      obtain ⟨notes, ih⟩ := run_forM_report fates ((reject r reason).run.run w).2
      refine ⟨notes, ih.trans ?_⟩
      simp only [Fate.isRejected, List.filter_cons_of_pos, List.length_cons]
      rw [Nat.add_comm _ 1, ← Nat.add_assoc]
      rfl
    | acknowledged => exact run_forM_report fates w
    | queued => exact run_forM_report fates w

theorem run_settle (s : Settlement) (w : World) : ∃ notes, (settle s).run.run w = (.ok (), { w with
    notes := notes
    broker := w.broker.settle s
    rejections := w.rejections + ((w.broker.fates s).filter fun e => e.2.isRejected).length }) :=
  run_forM_report (w.broker.fates s) { w with broker := w.broker.settle s }

theorem run_poll (w : World) : ∃ notes, poll.run.run w = (.ok (), w.after [.poll] notes) := by
  obtain ⟨notes, h⟩ := run_settle (nextPoll w.broker).1
    { w with calls := w.calls ++ [.poll], broker := (nextPoll w.broker).2 }
  refine ⟨notes, Eq.trans ?_ (h.trans ?_)⟩
  · rfl
  · simp [World.after, Ledger.opened, Ledger.step, Ledger.settle]

theorem run_publish (r : Record) (w : World) : (publish r).run.run w =
    (match (nextOffer w.broker).1 with
      | some reason => do
        World.call (.refuse r.topic)
        throw (.dispatch (.notProduced reason))
      | none => do
        enqueue r
        poll : Act World Unit).run.run { w with broker := (nextOffer w.broker).2 } := rfl

theorem run_publish_of_taken (h : (nextOffer w.broker).1 = none) : ∃ notes,
    (publish r).run.run w = (.ok (), w.after [.produce r, .poll] notes) := by
  obtain ⟨notes, hpoll⟩ := run_poll (w.after [.produce r] w.notes)
  rw [World.after_after] at hpoll
  refine ⟨notes, Eq.trans ?_ hpoll⟩
  rw [run_publish, h]
  rfl

theorem run_publish_of_refused {reason : String} (h : (nextOffer w.broker).1 = some reason) :
    (publish r).run.run w =
      (.error (.dispatch (.notProduced reason)), w.after [.refuse r.topic] w.notes) := by
  rw [run_publish, h]
  rfl

theorem run_drain (timeout : Number) (w : World) : ∃ notes,
    (drain timeout).run.run w = (.ok (nextFlush w.broker).1.2, w.after [.flush timeout] notes) := by
  obtain ⟨notes, h⟩ := run_settle (nextFlush w.broker).1.1
    { w with calls := w.calls ++ [.flush timeout], broker := (nextFlush w.broker).2 }
  have hdrain : (drain timeout).run.run w = ((settle (nextFlush w.broker).1.1 >>= fun _ =>
      pure (nextFlush w.broker).1.2).run.run
        { w with calls := w.calls ++ [.flush timeout], broker := (nextFlush w.broker).2 }) := rfl
  refine ⟨notes, ?_⟩
  rw [hdrain, Act.run_bind, h]
  refine congrArg (Prod.mk (Except.ok _)) ?_
  simp [World.after, Ledger.opened, Ledger.step, Ledger.settle]

/-- A flush gives the number of records left and rejected, and starts counting anew. -/
theorem run_flush (timeout : Number) (w : World) : ∃ notes, (flush timeout).run.run w =
    (.ok ((nextFlush w.broker).1.2 + (w.after [.flush timeout] notes).rejections),
      { w.after [.flush timeout] notes with rejections := 0 }) := by
  obtain ⟨notes, h⟩ := run_drain timeout w
  refine ⟨notes, ?_⟩
  unfold flush
  rw [Act.run_bind, h]
  rfl

theorem run_close (w : World) : ∃ notes,
    close.run.run w = (.ok (), w.after [.flush flushTimeout] notes) := by
  obtain ⟨notes, h⟩ := run_drain flushTimeout w
  refine ⟨notes, ?_⟩
  unfold close
  rw [Act.run_bind, h]
  rfl

end Publisher

end PageInvalidation.Dispatch
