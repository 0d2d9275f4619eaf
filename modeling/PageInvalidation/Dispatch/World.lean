import PageInvalidation.Database.Script
import PageInvalidation.Dispatch.DeadLetter
import PageInvalidation.Dispatch.Meters
import PageInvalidation.Settings
import PageInvalidation.Wire.Message

/-! # The world around the dispatcher

The dispatcher talks to a broker that keeps messages, to clocks, and to a database. All of these are one
state: what they will answer, and the calls made on them so far. What the broker does with a record is
open until it is settled: at any poll or flush it may be acknowledged, rejected or stay queued. -/

namespace PageInvalidation.Dispatch

/-! ### The broker -/

/-- What a record carries: an event, a dead letter, or any object. -/
inductive Payload where
  | event (m : Wire.EventMessage)
  | deadLetter (d : DeadLetter)
  | object (v : Value)

/-- A record to be published. -/
structure Record where
  topic : String
  key : String
  payload : Payload

/-- What becomes of a queued record. -/
inductive Fate where
  | acknowledged
  | rejected (reason : String)
  | queued
  deriving DecidableEq, Repr

/-- What becomes of all queued records: of those at special places, and of the others. -/
structure Settlement where
  otherwise : Fate
  special : List (Nat × Fate)

/-- The fate of the record at a place of the queue. -/
def Settlement.fate (s : Settlement) (place : Nat) : Fate :=
  match s.special.find? fun e => e.1 = place with
  | some e => e.2
  | none => s.otherwise

/-- Everything stays queued. -/
def Settlement.quiet : Settlement := ⟨.queued, []⟩

/-- Everything is acknowledged. -/
def Settlement.success : Settlement := ⟨.acknowledged, []⟩

/-- What the broker will do, and the records it has not settled. -/
structure Broker where
  /-- How many records were offered. -/
  offered : Nat
  /-- The offers that are refused, by number, and why. -/
  refusals : List (Nat × String)
  queue : List Record
  /-- What the next polls settle. -/
  polls : List Settlement
  /-- What the next flushes settle, and how many records they report as left. -/
  flushes : List (Settlement × Int)

/-- A broker that takes and acknowledges everything. -/
def Broker.willing : Broker := ⟨0, [], [], [], []⟩

namespace Broker

/-- The queued records with their fates. -/
def fates (b : Broker) (s : Settlement) : List (Record × Fate) :=
  b.queue.zipIdx.map fun (r, place) => (r, s.fate place)

/-- The broker after a settlement: what stays queued. -/
def settle (b : Broker) (s : Settlement) : Broker :=
  { b with queue := ((b.fates s).filter fun e => e.2 = .queued).map Prod.fst }

end Broker

/-! ### Messages to be consumed -/

/-- What the next request for messages brings: messages, after a signal if there is one, or a failure. -/
inductive Delivery where
  | messages (signal : Option Int) (messages : List (Option Message))
  | failure (text : String)

/-- The signal that ends a run. -/
def terminate : Int := 15

/-- The signal of an interruption. -/
def interrupt : Int := 2

/-- What follows the last delivery: the signal that ends a run. -/
def Delivery.last : Delivery := .messages (some terminate) []

/-! ### Clocks -/

/-- A clock: what it shows at each reading, and how often it was read. -/
structure Clock where
  shows : Nat → Except NumberError Number
  readings : Nat

/-- What a clock shows. -/
def Clock.shown (c : Clock) : Except NumberError Number := c.shows c.readings

/-- What a clock shows, and the clock afterwards. -/
def Clock.read (c : Clock) : Except NumberError Number × Clock :=
  (c.shown, { c with readings := c.readings + 1 })

/-! ### Calls -/

/-- A call to the outside. -/
inductive Call where
  | handleSignal (signal : Int)
  | openPool (min max : Int) (url : String)
  | openConsumer (settings : Value)
  | subscribe (topics : List String)
  | openProducer (settings : Value)
  | consume (count : Int) (timeout : Binary64)
  | produce (record : Record)
  | refuse (topic : String)
  | poll
  | flush (timeout : Number)
  | commit
  | closeConsumer
  | database (c : Database.Call)

/-! ### The world -/

/-- Everything outside the dispatcher, and what it keeps itself. -/
structure World where
  notes : List Note
  calls : List Call
  /-- What the next attempts at a statement meet. -/
  answers : List Database.Reply
  clock : Clock
  stopwatch : Clock
  /-- When changes are handled. -/
  now : Instant
  broker : Broker
  /-- Records that were rejected since the last flush was evaluated. -/
  rejections : Nat
  measures : Measures
  running : Bool

instance : Journalled World := ⟨fun note w => { w with notes := w.notes ++ [note] }⟩

/-- What the next attempt at a statement meets: a result without rows once all answers are used up. -/
def World.reply (w : World) : Database.Reply := w.answers.headD (.rows (some []))

instance : Database.Host World where
  call c w :=
    let result := w.reply.outcome c
    (result, { w with
      calls := w.calls ++ [.database c]
      answers := if c.ends result.isOk then w.answers.tail else w.answers })

namespace World

/-- Makes a call. -/
def call (c : Call) : Act World Unit := Act.update fun w => { w with calls := w.calls ++ [c] }

/-- Reads the clock. -/
def time : Act World Number := do
  let t ← Act.observe fun w => let (t, clock) := w.clock.read; (t, { w with clock })
  Act.ofExcept .number t

/-- Reads the stopwatch. -/
def stopwatchTime : Act World Number := do
  let t ← Act.observe fun w => let (t, stopwatch) := w.stopwatch.read; (t, { w with stopwatch })
  Act.ofExcept .number t

end World

end PageInvalidation.Dispatch
