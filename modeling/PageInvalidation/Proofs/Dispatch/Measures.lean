import PageInvalidation.Proofs.Dispatch.Counters
import PageInvalidation.Proofs.Dispatch.Meters
import PageInvalidation.Proofs.Json.Integers
import PageInvalidation.Proofs.Number
import PageInvalidation.Proofs.Outcome

/-! # No count is lost

Whatever happens to the measures, in any order and at any times: what the logged lines show of a counter, what the
windows held of it whose line could not be written and what the window holds of it add up to what was counted, each
meter is the rounded sum of what was counted, and a window is closed just when its line is due (`counted_once`). An
event does its part of this (`after_cases`, `reading_after`), and a run the rest (`run_conserves`, `reading_run`). -/

namespace PageInvalidation.Dispatch

open Outcome (bind_eq_ok)
open Number (SparesZero sparesZero_ok sparesZero_toBinary sparesZero_sub sparesZero_divide)

/-! ### Closing a window -/

namespace Window

variable {w : Window} {elapsed interval now : Number} {report : Report}

/-- No report divides by zero: neither by the time that has passed nor by the number of changes. -/
theorem sparesZero_report (w : Window) (interval now : Number) : SparesZero (w.report interval now) := by
  refine (sparesZero_sub now w.start).bind fun elapsed => ?_
  have hrate : SparesZero (w.rate elapsed) := by
    unfold rate
    split
    · rename_i hpos
      exact sparesZero_divide _ (Number.not_isZero_of_pos hpos)
    · exact sparesZero_ok _
  have hlatency : SparesZero w.averageLatency := by
    unfold averageLatency
    split
    · rename_i hpos
      have hne : ¬(Number.whole w.handled).IsZero := fun hzero => by
        have hzero' : (w.handled : ℤ) = 0 := hzero
        omega
      exact sparesZero_divide _ hne
    · exact sparesZero_ok _
  split
  · exact sparesZero_ok _
  · refine hrate.bind fun _ => hlatency.bind fun _ => ?_
    split <;> exact sparesZero_ok _

theorem close_eq_ok (h : w.close elapsed = .ok report) :
    (report = .unwritable ∧ ¬w.Writable elapsed) ∨
      (w.Writable elapsed ∧
        ∃ rate latency seconds, report = .line (lineOf (w.shownFields rate latency seconds))) := by
  obtain ⟨rate, -, h⟩ := bind_eq_ok.mp h
  obtain ⟨latency, -, h⟩ := bind_eq_ok.mp h
  cases hfields : w.fields rate latency elapsed with
  | none =>
    rw [hfields] at h
    cases h
    refine .inl ⟨rfl, fun hw => ?_⟩
    obtain ⟨seconds, hseconds⟩ := hw.length
    have hsome : w.fields rate latency elapsed = some _ :=
      fields_eq_some_iff.mpr ⟨hw.counters, seconds, hseconds, rfl⟩
    rw [hfields] at hsome
    cases hsome
  | some fields =>
    rw [hfields] at h
    cases h
    obtain ⟨hshort, seconds, hseconds, rfl⟩ := fields_eq_some_iff.mp hfields
    exact .inr ⟨⟨hshort, seconds, hseconds⟩, rate, latency, seconds, rfl⟩

end Window

namespace Measures

/-- What happens to the measures. -/
inductive Event where
  | dispatched (latency : Binary64) (pages : ℕ)
  | skipped (latency : Binary64)
  | failed
  | turned (now : Number)

/-- A window that was closed, when, and the line that was logged for it, if there was one. -/
structure Closed where
  window : Window
  time : Number
  line : Option String

/-- A closed window that has a line. -/
def Closed.Writable (e : Closed) : Prop :=
  ∃ elapsed, e.time.sub e.window.start = .ok elapsed ∧ e.window.Writable elapsed

/-- The window that a turn closes. -/
def closings (m : Measures) (now : Number) : List Closed :=
  match m.window.report m.interval now with
  | .ok .pending => []
  | .ok report => [⟨m.window, now, report.line?⟩]
  | .error _ => []

/-- The measures after an event, also after one that fails halfway, and the windows that it closes. -/
def after (m : Measures) : Event → Measures × List Closed
  | .dispatched latency pages => ((m.dispatched (.binary latency) pages).1, [])
  | .skipped latency => ((m.skipped (.binary latency)).1, [])
  | .failed => (m.failed.1, [])
  | .turned now => ((m.turn now).1, m.closings now)

/-- The measures after some events, and the windows that they close. -/
def run (m : Measures) : List Event → Measures × List Closed
  | [] => (m, [])
  | e :: events => (((m.after e).1.run events).1, (m.after e).2 ++ ((m.after e).1.run events).2)

theorem sparesZero_turn (m : Measures) (now : Number) (binary : Bool) :
    (m.turn now).2 ≠ .error (.number (.zeroDivisor binary)) := by
  have hreport := m.window.sparesZero_report m.interval now
  unfold turn
  split
  · exact fun h => nomatch h
  · rename_i e he
    intro h
    cases h
    exact hreport binary he

/-- What a turn that closes the window does. -/
structure Turns (m : Measures) (now : Number) (line : Option String) : Prop where
  turn : m.turn now = ({ m with window := .opened now }, .ok line)
  closed : m.closings now = [⟨m.window, now, line⟩]
  written : line = none ↔ ¬Closed.Writable ⟨m.window, now, line⟩
  shown : ∀ text, line = some text →
    ∃ rate latency seconds, text = Window.lineOf (m.window.shownFields rate latency seconds)

/-- **A turn either closes the window, or it does nothing.** -/
theorem turn_cases (m : Measures) (now : Number) :
    (∃ line, m.Turns now line) ∨
      ((m.turn now).1 = m ∧ m.closings now = [] ∧ ∀ line, (m.turn now).2 ≠ .ok (some line)) := by
  cases h : m.window.report m.interval now with
  | error e => exact .inr (by simp [turn, closings, h])
  | ok report =>
    obtain ⟨elapsed, helapsed, hreport⟩ := bind_eq_ok.mp h
    have hwritable : ∀ line, Closed.Writable ⟨m.window, now, line⟩ ↔ m.window.Writable elapsed := fun line =>
      ⟨fun ⟨e, he, hw⟩ => by rw [helapsed] at he; cases he; exact hw, fun hw => ⟨elapsed, helapsed, hw⟩⟩
    split at hreport
    · cases hreport
      exact .inr (by simp [turn, closings, h, Window.next, Window.Report.line?])
    · rcases Window.close_eq_ok hreport with ⟨rfl, hnot⟩ | ⟨hw, rate, latency, seconds, rfl⟩
      · refine .inl ⟨none, by simp [turn, h, Window.next, Window.Report.line?],
          by simp [closings, h, Window.Report.line?], ?_, nofun⟩
        exact iff_of_true rfl (mt (hwritable _).mp hnot)
      · refine .inl ⟨_, by simp [turn, h, Window.next, Window.Report.line?], by simp [closings, h, Window.Report.line?],
          ?_, fun text htext => ⟨rate, latency, seconds, (Option.some.inj htext).symm⟩⟩
        exact iff_of_false nofun (not_not.mpr ((hwritable _).mpr hw))

end Measures

/-! ### The counters -/

open Measures (Event)
open Window (lineOf)

variable {m : Measures}

namespace Counter

/-- What an event adds to a counter. -/
def gain : Counter → Event → ℕ
  | .dispatched, .dispatched _ _ => 1
  | .pages, .dispatched _ n => n
  | .skipped, .skipped _ => 1
  | .failures, .failed => 1
  | _, _ => 0

/-- What was counted in all. -/
def total (c : Counter) (events : List Event) : ℕ := (events.map c.gain).sum

theorem total_cons (c : Counter) (e : Event) (events : List Event) :
    c.total (e :: events) = c.gain e + c.total events := by
  rw [total, List.map_cons, List.sum_cons]
  rfl

end Counter

namespace Measures

/-- An event adds to the counters of the window, or it closes the window and opens the next. -/
theorem after_cases (m : Measures) (e : Event) :
    ((m.after e).2 = [] ∧ ∀ c : Counter, c.value (m.after e).1.window = c.value m.window + c.gain e) ∨
    ∃ now line, e = .turned now ∧ m.Turns now line ∧ (m.after e).2 = [⟨m.window, now, line⟩] ∧
      (m.after e).1.window = .opened now := by
  cases e with
  | dispatched latency pages =>
    refine .inl ⟨rfl, fun c => ?_⟩
    cases c <;> simp [Counter.value, Counter.gain, after, dispatched, Number.toBinary, record, Window.addDispatched,
      Window.addLatency]
  | skipped latency =>
    refine .inl ⟨rfl, fun c => ?_⟩
    cases c <;> simp [Counter.value, Counter.gain, after, skipped, Number.toBinary, record, Window.addSkipped,
      Window.addLatency]
  | failed =>
    refine .inl ⟨rfl, fun c => ?_⟩
    cases c <;> simp [Counter.value, Counter.gain, after, failed, record, Window.addFailed]
  | turned now =>
    rcases m.turn_cases now with ⟨line, hturns⟩ | ⟨hsame, hnone, -⟩
    · exact .inr ⟨now, line, rfl, hturns, hturns.closed, by rw [after, hturns.turn]⟩
    · -- a turn that fails counts here too: it closes nothing
      refine .inl ⟨hnone, fun c => ?_⟩
      rw [after, hsame]
      cases c <;> simp [Counter.gain]

theorem pages_after (h : 0 ≤ m.window.pages) (e : Event) : 0 ≤ (m.after e).1.window.pages := by
  rcases m.after_cases e with ⟨-, hvalue⟩ | ⟨now, -, -, -, -, hwindow⟩
  · have hpages := hvalue .pages
    simp only [Counter.value] at hpages
    omega
  · rw [hwindow]
    exact le_refl _

/-- A closed window that has a line just if it can be written, which shows its counters. -/
structure Closed.Faithful (e : Closed) : Prop where
  natural : ∀ c : Counter, 0 ≤ c.value e.window
  written : e.line = none ↔ ¬e.Writable
  shown : ∀ line, e.line = some line → ∀ c : Counter, ∃ n : ℕ, c.read line = some n ∧ c.value e.window = n

theorem faithful_after (h : 0 ≤ m.window.pages) (e : Event) : ∀ closed ∈ (m.after e).2, closed.Faithful := by
  rcases m.after_cases e with ⟨hnone, -⟩ | ⟨now, line, -, hturns, hclosed, -⟩
  · rw [hnone]
    exact List.forall_mem_nil _
  · rw [hclosed, List.forall_mem_singleton]
    refine ⟨fun c => ?_, hturns.written, fun text htext c => ?_⟩
    · cases c
      · exact Int.natCast_nonneg _
      · exact h
      · exact Int.natCast_nonneg _
      · exact Int.natCast_nonneg _
    · obtain ⟨rate, latency, seconds, rfl⟩ := hturns.shown text htext
      exact Window.read_lineOf h rate latency seconds c

theorem faithful_run : ∀ {m : Measures}, 0 ≤ m.window.pages → ∀ events : List Event,
    ∀ closed ∈ (m.run events).2, closed.Faithful
  | _, _, [] => List.forall_mem_nil _
  | m, h, e :: events => by
    rw [run, List.forall_mem_append]
    exact ⟨faithful_after h e, faithful_run (pages_after h e) events⟩

/-- What an event adds to a counter is in the window, or in the one that it closes. -/
theorem after_conserves (m : Measures) (e : Event) (c : Counter) :
    (((m.after e).2.map fun closed => c.value closed.window).sum + c.value (m.after e).1.window =
      c.value m.window + c.gain e) := by
  rcases m.after_cases e with ⟨hnone, hvalue⟩ | ⟨now, line, rfl, -, hclosed, hwindow⟩
  · rw [hnone, hvalue c, List.map_nil, List.sum_nil, zero_add]
  · rw [hclosed, hwindow, List.map_singleton, List.sum_singleton]
    cases c <;> simp [Counter.value, Counter.gain, Window.opened]

/-- **What a run adds to a counter is in the window and in those that it closes.** -/
theorem run_conserves (c : Counter) : ∀ (m : Measures) (events : List Event),
    ((m.run events).2.map fun closed => c.value closed.window).sum + c.value (m.run events).1.window =
      c.value m.window + c.total events
  | m, [] => by simp [run, Counter.total]
  | m, e :: events => by
    have hevent := after_conserves m e c
    have hrest := run_conserves c (m.after e).1 events
    rw [run, List.map_append, List.sum_append, Counter.total_cons, Nat.cast_add]
    dsimp only
    omega

/-- What some closed windows held of a counter is in their lines, apart from those without a line. -/
theorem read_closed (c : Counter) : ∀ {closed : List Closed}, (∀ e ∈ closed, e.Faithful) → ∃ values : List ℕ,
    (closed.filterMap Closed.line).map c.read = values.map some ∧
      values.sum + ((closed.filter fun e => e.line.isNone).map fun e => c.value e.window).sum =
        (closed.map fun e => c.value e.window).sum
  | [], _ => ⟨[], rfl, rfl⟩
  | e :: closed, h => by
    obtain ⟨he, hrest⟩ := List.forall_mem_cons.mp h
    obtain ⟨values, hread, hsum⟩ := read_closed c hrest
    cases hline : e.line with
    | none =>
      refine ⟨values, by rw [List.filterMap_cons_none hline, hread], ?_⟩
      rw [List.filter_cons_of_pos (by rw [hline]; rfl), List.map_cons, List.map_cons, List.sum_cons, List.sum_cons]
      omega
    | some line =>
      obtain ⟨n, hn, hvalue⟩ := he.shown line hline c
      refine ⟨n :: values, by rw [List.filterMap_cons_some hline, List.map_cons, hn, hread, List.map_cons], ?_⟩
      rw [List.filter_cons_of_neg (by rw [hline]; exact Bool.false_ne_true), List.map_cons, List.sum_cons,
        List.sum_cons, hvalue, Nat.cast_add]
      omega

theorem value_closed_le (h : 0 ≤ m.window.pages) {events : List Event} {e : Closed} (he : e ∈ (m.run events).2)
    (c : Counter) : c.value e.window ≤ c.value m.window + c.total events := by
  have hsum := run_conserves c m events
  have hle : c.value e.window ≤ ((m.run events).2.map fun closed => c.value closed.window).sum :=
    List.single_le_sum (fun x hx => by
      obtain ⟨closed, hclosed, rfl⟩ := List.mem_map.mp hx
      exact (faithful_run h events closed hclosed).natural c) _ (List.mem_map_of_mem he)
  have hrest : 0 ≤ c.value (m.run events).1.window := by
    have hpages : ∀ (events : List Event) {m : Measures}, 0 ≤ m.window.pages → 0 ≤ (m.run events).1.window.pages := by
      intro events
      induction events with
      | nil => exact fun h => h
      | cons e events ih => exact fun h => ih (pages_after h e)
    cases c
    · exact Int.natCast_nonneg _
    · exact hpages events h
    · exact Int.natCast_nonneg _
    · exact Int.natCast_nonneg _
  omega

end Measures

/-! ### The meters -/

namespace Measures.Event

/-- The calls that an event makes on the meters. -/
def calls : Event → List MeterCall
  | .dispatched latency pages => [.count .changes 1, .count .pages pages, Meters.latency latency]
  | .skipped latency => [.count .changes 1, .count .skipped 1, Meters.latency latency]
  | .failed => [.count .failed 1]
  | .turned _ => []

/-- What an event adds to a meter. A number of pages beyond the doubles is refused. -/
def gains (meter : Meter) (e : Event) : List ℕ :=
  (e.calls.takeWhile MeterCall.Fits).flatMap (MeterCall.amounts meter)

end Measures.Event

namespace Meter

/-- The counters whose counts a meter shows. -/
def counters : Meter → List Counter
  | changes => [.dispatched, .skipped]
  | failed => [.failures]
  | skipped => [.skipped]
  | pages => [.pages]

/-- What was counted in all. -/
def total (meter : Meter) (events : List Event) : ℕ := (meter.counters.map fun c => c.total events).sum

theorem total_cons (meter : Meter) (e : Event) (events : List Event) :
    meter.total (e :: events) = (meter.counters.map fun c => c.gain e).sum + meter.total events := by
  rw [total, total, ← List.sum_map_add]
  rfl

/-- What an event adds to a meter is what it adds to its counters, if that is within fifty-three bits. -/
theorem sum_gains (meter : Meter) (e : Event) (h : (meter.counters.map fun c => c.gain e).sum ≤ 2 ^ 53) :
    (e.gains meter).sum = (meter.counters.map fun c => c.gain e).sum := by
  have hone : (MeterCall.count .changes 1).Fits := by decide
  cases e with
  | dispatched latency n =>
    by_cases hfits : (MeterCall.count .pages n).Fits
    · have hlatency : (MeterCall.observe (latency / .ofInt 1000)).Fits := trivial
      cases meter <;>
        simp [Event.gains, Event.calls, MeterCall.amounts, Counter.gain, counters, hone, hfits, hlatency, Meters.latency]
    · cases meter with
      | pages => exact absurd ⟨Int.natCast_nonneg n, (Binary64.fields_ofInt h).1⟩ hfits
      | _ => simp [Event.gains, Event.calls, MeterCall.amounts, Counter.gain, counters, hone, hfits]
  | skipped latency => cases meter <;> rfl
  | failed => cases meter <;> rfl
  | turned now => cases meter <;> rfl

theorem sum_flatMap_gains (meter : Meter) : ∀ {events : List Event}, meter.total events ≤ 2 ^ 53 →
    (events.flatMap (Event.gains meter)).sum = meter.total events
  | [], _ => by cases meter <;> rfl
  | e :: events, h => by
    rw [total_cons] at h
    rw [List.flatMap_cons, List.sum_append, total_cons, meter.sum_gains e (by omega),
      meter.sum_flatMap_gains (by omega)]

end Meter

namespace Measures

theorem meters_after (m : Measures) (e : Event) : (m.after e).1.meters = (m.meters.callEach e.calls).1 := by
  cases e with
  | dispatched latency pages => rfl
  | skipped latency => rfl
  | failed => rfl
  | turned now =>
    rcases m.turn_cases now with ⟨line, hturns⟩ | ⟨hsame, -⟩
    · rw [after, hturns.turn]
      rfl
    · rw [after, hsame]
      rfl

theorem reading_after (h : m.meters.library.Documented) (e : Event) (meter : Meter) :
    (m.after e).1.meters.reading meter = addAll (m.meters.reading meter) (e.gains meter) := by
  rw [meters_after]
  exact Meters.reading_callEach meter h

/-- **A meter adds up what the events of a run add to it.** -/
theorem reading_run (meter : Meter) : ∀ {m : Measures}, m.meters.library.Documented → ∀ events : List Event,
    (m.run events).1.meters.reading meter =
      addAll (m.meters.reading meter) (events.flatMap (Event.gains meter))
  | _, _, [] => rfl
  | m, h, e :: events => by
    have hafter : (m.after e).1.meters.library.Documented := by
      rw [meters_after, Meters.library_callEach]
      exact h
    rw [run, reading_run meter hafter, reading_after h, List.flatMap_cons, addAll_append]

/-- A meter that shows a natural number is exact as long as it stays within fifty-three bits. -/
theorem equalsInt_reading_run (h : m.meters.library.Documented) (events : List Event) (meter : Meter) {k : ℕ}
    (hk : m.meters.reading meter = .ofInt k) (hbound : k + meter.total events ≤ 2 ^ 53) :
    ((m.run events).1.meters.reading meter).equalsInt (k + meter.total events : ℕ) = true := by
  have hsum := meter.sum_flatMap_gains (Nat.le_trans (Nat.le_add_left _ k) hbound)
  rw [reading_run meter h, hk, addAll, Binary64.foldl_add_ofInt (by omega), hsum]
  exact Binary64.equalsInt_ofInt hbound

/-! ### Runs -/

/-- What the closed windows and the measures show of the events that led to them. -/
structure Accounts (before : Meters) (events : List Event) (m : Measures) (closed : List Closed) : Prop where
  counters : ∀ c : Counter, ∃ values : List ℕ, (closed.filterMap Closed.line).map c.read = values.map some ∧
    values.sum + ((closed.filter fun e => e.line.isNone).map fun e => c.value e.window).sum + c.value m.window =
      c.total events
  lost : ∀ e ∈ closed, e.line = none ↔ ¬e.Writable
  short : (∀ c : Counter, Text.IsShort (c.total events)) → ∀ e ∈ closed, ∀ c : Counter, Text.IsShort (c.value e.window)
  meters : ∀ meter, m.meters.reading meter = addAll (before.reading meter) (events.flatMap (Event.gains meter))
  exact_meters : ∀ meter (k : ℕ), before.reading meter = .ofInt k → k + meter.total events ≤ 2 ^ 53 →
    (m.meters.reading meter).equalsInt (k + meter.total events : ℕ) = true

/-- A turn opens a new window just if it closes the last, and does not divide by zero. -/
structure TurnsAt (m : Measures) (now : Number) : Prop where
  resets : (∃ line, m.turn now = ({ m with window := .opened now }, .ok line) ∧
      m.closings now = [⟨m.window, now, line⟩] ∧ (line = none ↔ ¬Closed.Writable ⟨m.window, now, line⟩)) ∨
    ((m.turn now).1 = m ∧ m.closings now = [] ∧ ∀ line, (m.turn now).2 ≠ .ok (some line))
  divides : ∀ binary, (m.turn now).2 ≠ .error (.number (.zeroDivisor binary))

/-- **No count is lost and none is counted twice**, whatever happens and whatever the clock shows. -/
theorem counted_once {before : Meters} (h : before.library.Documented) (interval start : Number)
    (events : List Event) :
    Accounts before events ((opened before interval start).run events).1
        ((opened before interval start).run events).2 ∧
      ∀ now, TurnsAt ((opened before interval start).run events).1 now := by
  obtain ⟨m, hm⟩ : ∃ m, opened before interval start = m := ⟨_, rfl⟩
  have hpages : 0 ≤ m.window.pages := by
    rw [← hm]
    exact le_refl _
  have hzero : ∀ c : Counter, c.value m.window = 0 := fun c => by
    rw [← hm]
    cases c <;> rfl
  have hmeters : m.meters = before := by rw [← hm]; rfl
  have hfaithful := faithful_run hpages events
  subst hmeters
  rw [hm]
  refine ⟨⟨fun c => ?_, fun e he => (hfaithful e he).written, fun hshort e he c => ?_,
    fun meter => reading_run meter h events, fun meter k => equalsInt_reading_run h events meter⟩,
    fun now => ⟨?_, sparesZero_turn _ now⟩⟩
  · obtain ⟨values, hread, hvalues⟩ := read_closed c hfaithful
    have hsum := run_conserves c m events
    rw [hzero c] at hsum
    exact ⟨values, hread, by omega⟩
  · have hle := value_closed_le hpages he c
    have hnatural := (hfaithful e he).natural c
    rw [hzero c] at hle
    have hbound := Text.isShort_iff.mp (hshort c)
    exact Text.isShort_iff.mpr (by omega)
  · rcases turn_cases (m.run events).1 now with ⟨line, hturns⟩ | hsame
    · exact .inl ⟨line, hturns.turn, hturns.closed, hturns.written⟩
    · exact .inr hsame

/-- Meters before the first call. -/
def freshMeters : Meters := ⟨.ofDoubles, []⟩

/-- Four events, the last of which logs a line: the line shows three pages, and so does the meter. -/
theorem counted_once_four_events :
    Meter.pages.total [.dispatched (.ofInt 5) 3, .skipped (.ofInt 1), .failed, .turned (.whole 2)] ≤ 2 ^ 53 ∧
    (((opened freshMeters (.whole 0) (.whole 2)).run
      [.dispatched (.ofInt 5) 3, .skipped (.ofInt 1), .failed, .turned (.whole 2)]).1.meters.reading .pages).equalsInt
        3 = true ∧
    (((opened freshMeters (.whole 0) (.whole 2)).run
      [.dispatched (.ofInt 5) 3, .skipped (.ofInt 1), .failed, .turned (.whole 2)]).2.map Closed.line) =
        [some ("metrics changes_per_second=0.000 avg_latency_ms=3.00 dispatched=1 pages=3 skipped=1 failures=1 " ++
          "window_sec=0.00")] :=
  ⟨by decide,
    (@counted_once freshMeters MeterLibrary.documented_ofDoubles (.whole 0) (.whole 2) _).1.exact_meters
      .pages 0 (by decide) (by decide),
    by decide +kernel⟩

/-- A meter rounds a number of pages with more than fifty-three bits, and refuses one beyond the floating-point
numbers. -/
theorem pages_meter_inexact :
    (Meter.pages.total [.dispatched (.ofInt 1) (2 ^ 53 + 1)] = 2 ^ 53 + 1 ∧
      (((opened freshMeters (.whole 60) (.whole 0)).run
        [.dispatched (.ofInt 1) (2 ^ 53 + 1)]).1.meters.reading .pages).truncate? = some (2 ^ 53)) ∧
    Meter.pages.total [.dispatched (.ofInt 1) (10 ^ 309)] = 10 ^ 309 ∧
      (((opened freshMeters (.whole 60) (.whole 0)).run
        [.dispatched (.ofInt 1) (10 ^ 309)]).1.meters.reading .pages).truncate? = some 0 := by
  decide +kernel

end Measures

end PageInvalidation.Dispatch
