import PageInvalidation.Dispatch.World

/-! # Publishing

Records are offered to the broker and settled later. Rejections are counted as they are reported; a flush
gives the number of records that were not delivered, queued ones and rejected ones, and starts counting
anew. -/

namespace PageInvalidation.Dispatch.Publisher

/-- Who writes the notes of this module. -/
def source : String := "change_dispatch.producer"

/-- How long a flush may take, in seconds. -/
def flushTimeout : Number := .binary (.ofInt 5)

/-- Counts and notes a rejected record. -/
def reject (r : Record) (reason : String) : Act World Unit := do
  Act.update fun w => { w with rejections := w.rejections + 1 }
  Act.note .error source
    (Text.CodeText.ofString ("delivery failed topic=" ++ r.topic ++ " key=" ++ r.key ++ " error=" ++ reason))

/-- Takes notice of the fate of a record. -/
def report : Record × Fate → Act World Unit
  | (r, .rejected reason) => reject r reason
  | (_, .acknowledged) => pure ()
  | (_, .queued) => pure ()

/-- Settles queued records and reports their fates in the order of the queue. -/
def settle (s : Settlement) : Act World Unit := do
  let fates ← Act.observe fun w => (w.broker.fates s, { w with broker := w.broker.settle s })
  fates.forM report

/-- What the next poll settles. -/
def nextPoll (b : Broker) : Settlement × Broker :=
  match b.polls with
  | [] => (.quiet, b)
  | s :: rest => (s, { b with polls := rest })

/-- What the next flush settles and reports as left. -/
def nextFlush (b : Broker) : (Settlement × Int) × Broker :=
  match b.flushes with
  | [] => ((.success, 0), b)
  | s :: rest => (s, { b with flushes := rest })

/-- Lets the broker report what it has settled. -/
def poll : Act World Unit := do
  World.call .poll
  settle (← Act.observe fun w => let (s, broker) := nextPoll w.broker; (s, { w with broker }))

/-- The refusal of the next offer, if it is refused. -/
def nextOffer (b : Broker) : Option String × Broker :=
  ((b.refusals.find? fun e => e.1 = b.offered).map Prod.snd, { b with offered := b.offered + 1 })

/-- Offers a record to the broker: the reason why it is refused, if it is. -/
def offer : Act World (Option String) :=
  Act.observe fun w => let (refusal, broker) := nextOffer w.broker; (refusal, { w with broker })

/-- Queues a record. -/
def enqueue (r : Record) : Act World Unit := do
  World.call (.produce r)
  Act.update fun w => { w with broker := { w.broker with queue := w.broker.queue ++ [r] } }

/-- Publishes a record, unless the broker refuses it. -/
def publish (r : Record) : Act World Unit := do
  match ← offer with
  | some reason =>
    World.call (.refuse r.topic)
    throw (.dispatch (.notProduced reason))
  | none =>
    enqueue r
    poll

/-- Waits for the broker; gives how many records it reports as left. -/
def drain (timeout : Number) : Act World Int := do
  World.call (.flush timeout)
  let (s, left) ← Act.observe fun w =>
    let (next, broker) := nextFlush w.broker; (next, { w with broker })
  settle s
  return left

/-- Waits for the broker; gives how many records were not delivered since the last flush. -/
def flush (timeout : Number) : Act World Int := do
  let left ← drain timeout
  let rejected ← Act.observe fun w => (w.rejections, { w with rejections := 0 })
  return left + rejected

/-- Waits for the broker a last time. -/
def close : Act World Unit := do
  let _ ← drain flushTimeout

end PageInvalidation.Dispatch.Publisher
