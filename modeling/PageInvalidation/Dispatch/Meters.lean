import PageInvalidation.Binary64.Text
import PageInvalidation.Fault
import PageInvalidation.Number

/-! # Measures

How many changes were dispatched, skipped or failed, how many pages they affected and how long they
took. Two kinds of measures are kept: a window, which is logged and starts anew after an interval, and
meters, which only grow and are kept by a library of their own. -/

namespace PageInvalidation.Dispatch

/-! ### The window -/

/-- What was counted since the window started. -/
structure Window where
  start : Number
  dispatched : Nat
  failed : Nat
  skipped : Nat
  pages : Int
  /-- The sum of all latencies, in milliseconds. -/
  latency : Binary64
  deriving DecidableEq, Repr

namespace Window

/-- An empty window. -/
def opened (now : Number) : Window := ⟨now, 0, 0, 0, 0, .zero false⟩

/-- A dispatched change that affects some pages. -/
def addDispatched (w : Window) (pages : Int) : Window :=
  { w with dispatched := w.dispatched + 1, pages := w.pages + pages }

/-- A change that failed. -/
def addFailed (w : Window) : Window := { w with failed := w.failed + 1 }

/-- A change that affects no page. -/
def addSkipped (w : Window) : Window := { w with skipped := w.skipped + 1 }

/-- A latency in milliseconds. -/
def addLatency (w : Window) (millis : Binary64) : Window := { w with latency := w.latency + millis }

/-- The changes that were handled without failing. -/
def handled (w : Window) : Nat := w.dispatched + w.skipped

/-- Changes handled in a second, over a time in seconds. -/
def rate (w : Window) (elapsed : Number) : Except NumberError Binary64 :=
  if (Number.whole 0).lt elapsed then (Number.whole w.handled).divide elapsed else .ok (.zero false)

/-- The latency of a handled change on average. -/
def averageLatency (w : Window) : Except NumberError Binary64 :=
  if 0 < w.handled then (Number.binary w.latency).divide (.whole w.handled) else .ok (.zero false)

/-- The labels and values that are logged for a window, with its rate, its average latency and its
length in seconds. There are none if a count has too many digits or the length is too large. -/
def fields (w : Window) (rate latency : Binary64) (elapsed : Number) : Option (List (String × String)) := do
  let dispatched ← Text.decimal? w.dispatched
  let pages ← Text.decimal? w.pages
  let skipped ← Text.decimal? w.skipped
  let failed ← Text.decimal? w.failed
  let seconds ← elapsed.toBinary.toOption
  return [("changes_per_second", String.ofList (rate.fixed 3)), ("avg_latency_ms", String.ofList (latency.fixed 2)),
    ("dispatched", dispatched), ("pages", pages), ("skipped", skipped), ("failures", failed),
    ("window_sec", String.ofList (seconds.fixed 2))]

/-- Labels and values in one line. -/
def lineOf (fields : List (String × String)) : String :=
  " ".intercalate ("metrics" :: fields.map fun f => f.1 ++ "=" ++ f.2)

/-- What becomes of a window when its interval is looked at. -/
inductive Report where
  /-- The interval has not passed. -/
  | pending
  /-- The window is closed, but its line cannot be written. -/
  | unwritable
  | line (text : String)
  deriving DecidableEq, Repr

/-- The line that is logged. -/
def Report.line? : Report → Option String
  | .line text => some text
  | _ => none

/-- The report on a window that is closed. -/
def close (w : Window) (elapsed : Number) : Except NumberError Report := do
  let rate ← w.rate elapsed
  let latency ← w.averageLatency
  match w.fields rate latency elapsed with
  | some fields => return .line (lineOf fields)
  | none => return .unwritable

/-- The report on a window: it is closed if the interval has passed. -/
def report (w : Window) (interval now : Number) : Except NumberError Report := do
  let elapsed ← now.sub w.start
  if elapsed.lt interval then return .pending else w.close elapsed

/-- The window after a report on it. -/
def next (w : Window) (now : Number) : Report → Window
  | .pending => w
  | _ => opened now

end Window

/-! ### The meters -/

/-- The meters that only grow. -/
inductive Meter where
  | changes
  | failed
  | skipped
  | pages
  deriving DecidableEq, Repr

/-- A call on the library that keeps the meters. -/
inductive MeterCall where
  | count (meter : Meter) (amount : Int)
  /-- A latency in seconds. -/
  | observe (seconds : Binary64)
  deriving DecidableEq, Repr

/-- A library of meters, known by what it answers after some calls. -/
structure MeterLibrary where
  /-- Why a further call is refused. -/
  refusal : List MeterCall → MeterCall → Option Fault
  /-- What a meter shows. -/
  reading : List MeterCall → Meter → Binary64
  /-- How many latencies are shown to be at most a bound. -/
  within : List MeterCall → Binary64 → Nat

/-- The meters: the library that keeps them and the calls that were made on it. -/
structure Meters where
  library : MeterLibrary
  calls : List MeterCall

namespace Meters

/-- The bounds of the latency classes, in seconds. -/
def bounds : List Binary64 :=
  [.ofDecimal false 1 (-3), .ofDecimal false 5 (-3), .ofDecimal false 1 (-2),
    .ofDecimal false 25 (-3), .ofDecimal false 5 (-2), .ofDecimal false 1 (-1),
    .ofDecimal false 25 (-2), .ofDecimal false 5 (-1), .ofDecimal false 1 0, .ofDecimal false 2 0,
    .infinity false]

/-- What a meter shows. -/
def reading (m : Meters) (meter : Meter) : Binary64 := m.library.reading m.calls meter

/-- How many latencies are shown to be at most a bound. -/
def within (m : Meters) (bound : Binary64) : Nat := m.library.within m.calls bound

/-- Makes a call. -/
def call (m : Meters) (c : MeterCall) : Meters × Except Fault Unit :=
  ({ m with calls := m.calls ++ [c] },
    match m.library.refusal m.calls c with
    | none => .ok ()
    | some fault => .error fault)

/-- Makes calls one after the other, up to one that is refused. -/
def callEach (m : Meters) : List MeterCall → Meters × Except Fault Unit
  | [] => (m, .ok ())
  | c :: calls =>
    match m.call c with
    | (m, .ok ()) => m.callEach calls
    | (m, .error fault) => (m, .error fault)

/-- The call for a latency in milliseconds. -/
def latency (millis : Binary64) : MeterCall := .observe (millis / .ofInt 1000)

end Meters

/-! ### Both -/

/-- The window and the meters, and the interval after which the window is logged. -/
structure Measures where
  interval : Number
  window : Window
  meters : Meters

namespace Measures

/-- The measures with a first window. -/
def opened (meters : Meters) (interval now : Number) : Measures := ⟨interval, .opened now, meters⟩

/-- A change of the window that comes with calls on the meters. -/
def record (m : Measures) (window : Window) (calls : List MeterCall) : Measures × Except Fault Unit :=
  let (meters, result) := m.meters.callEach calls
  ({ m with window, meters }, result)

/-- A dispatched change that affects some pages. A latency or a number of pages that cannot be counted
stops the count halfway. -/
def dispatched (m : Measures) (latency : Number) (pages : Int) : Measures × Except Fault Unit :=
  let window := m.window.addDispatched pages
  match latency.toBinary with
  | .error e => ({ m with window }, .error (.number e))
  | .ok millis =>
    m.record (window.addLatency millis) [.count .changes 1, .count .pages pages, Meters.latency millis]

/-- A change that failed. -/
def failed (m : Measures) : Measures × Except Fault Unit := m.record m.window.addFailed [.count .failed 1]

/-- A change that affects no page. -/
def skipped (m : Measures) (latency : Number) : Measures × Except Fault Unit :=
  let window := m.window.addSkipped
  match latency.toBinary with
  | .error e => ({ m with window }, .error (.number e))
  | .ok millis =>
    m.record (window.addLatency millis) [.count .changes 1, .count .skipped 1, Meters.latency millis]

/-- The line of the window if it is closed and can be written, and the measures with the next window. -/
def turn (m : Measures) (now : Number) : Measures × Except Fault (Option String) :=
  match m.window.report m.interval now with
  | .ok report => ({ m with window := m.window.next now report }, .ok report.line?)
  | .error e => (m, .error (.number e))

end Measures

/-! ### Meters that count doubles -/

namespace MeterLibrary

/-- What a library of doubles refuses: numbers below zero, and numbers beyond the range of a double. -/
def refusalOf : MeterCall → Option Fault
  | .count _ n =>
    if n < 0 then some (.dispatch .negativeCount)
    else if (Binary64.ofInt n).isFinite then none else some (.number .tooLarge)
  | .observe _ => none

/-- What a call adds to a meter. -/
def added (meter : Meter) (x : Binary64) (c : MeterCall) : Binary64 :=
  match c with
  | .count m n => if m = meter ∧ (refusalOf c).isNone then x + .ofInt n else x
  | .observe _ => x

/-- Whether a call shows a latency up to a bound. -/
def isWithin (bound : Binary64) : MeterCall → Bool
  | .observe x => x.le bound
  | .count _ _ => false

/-- A library that keeps each meter as a double. -/
def ofDoubles : MeterLibrary where
  refusal _ := refusalOf
  reading calls meter := calls.foldl (added meter) (.zero false)
  within calls bound := calls.countP (isWithin bound)

end MeterLibrary

end PageInvalidation.Dispatch
