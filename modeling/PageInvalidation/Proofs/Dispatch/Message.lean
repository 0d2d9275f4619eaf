import PageInvalidation.Dispatch.App
import PageInvalidation.Proofs.Binary64.Rounding
import PageInvalidation.Proofs.Dispatch.Handler
import PageInvalidation.Proofs.Dispatch.Publisher

/-! # What becomes of a message

With usages and titles in memory the handling of a message comes to a *verdict*: an event, nothing, or a
fault. While clocks and the broker are as they should be, an event is published, nothing is skipped, and a
fault leads to a dead letter, if the body gives an identifier to file it under. -/

namespace PageInvalidation.Dispatch

/-! ### Reading clocks -/

/-- A clock after some readings. -/
def Clock.ahead (c : Clock) (n : ℕ) : Clock := { c with readings := c.readings + n }

theorem Clock.ahead_ahead (c : Clock) (n k : ℕ) : (c.ahead n).ahead k = c.ahead (n + k) := by
  simp [Clock.ahead, Nat.add_assoc]

namespace World

variable {w : World} {t : Number}

theorem run_time_eq (w : World) : World.time.run.run w =
    (w.clock.shown.mapError .number, { w with clock := w.clock.ahead 1 }) := by
  have hrun : World.time.run.run w =
      (Act.ofExcept .number w.clock.shown).run.run { w with clock := w.clock.ahead 1 } := rfl
  rw [hrun, Act.run_ofExcept]

theorem run_time (h : w.clock.shown = .ok t) :
    World.time.run.run w = (.ok t, { w with clock := w.clock.ahead 1 }) := by
  rw [run_time_eq, h]
  rfl

theorem run_stopwatchTime_eq (w : World) : World.stopwatchTime.run.run w =
    (w.stopwatch.shown.mapError .number, { w with stopwatch := w.stopwatch.ahead 1 }) := by
  have hrun : World.stopwatchTime.run.run w =
      (Act.ofExcept .number w.stopwatch.shown).run.run { w with stopwatch := w.stopwatch.ahead 1 } := rfl
  rw [hrun, Act.run_ofExcept]

theorem run_stopwatchTime (h : w.stopwatch.shown = .ok t) :
    World.stopwatchTime.run.run w = (.ok t, { w with stopwatch := w.stopwatch.ahead 1 }) := by
  rw [run_stopwatchTime_eq, h]
  rfl

/-- Only notes are written. -/
def OnlyNotes (w w' : World) : Prop := ∃ notes, w' = { w with notes := notes }

instance : IsPreorder World OnlyNotes where
  refl w := ⟨w.notes, rfl⟩
  trans _ _ _ := by
    rintro ⟨notes, rfl⟩ ⟨notes', rfl⟩
    exact ⟨notes', rfl⟩

end World

/-! ### The stages of handling a message -/

/-- An identifier under which a dead letter for a message can be filed. -/
def Message.FiledUnder (m : Message) (depth : ℕ) (id : List Char) : Prop :=
  ∃ text, DeadLetter.idOf depth m.handledBytes = .ok text ∧ Text.Utf8.writable text = .ok id

namespace App

variable {app : App} {m : Message} {w : World}

/-- The key that an event is published under, if both can be written. -/
def eventKey (e : Wire.EventMessage) : Except Fault (List Char) := do
  let key ← (Text.Utf8.writable e.entity).mapError (.dispatch ∘ .unwritable)
  let _ ← (Wire.write e.toValue).mapError .unwritten
  return key

/-- The record of an event under a key. -/
def eventRecord (app : App) (e : Wire.EventMessage) (key : List Char) : Record :=
  ⟨app.settings.pagesTopic, String.ofList key, .event e⟩

/-- The record of a dead letter for a message. -/
def deadLetterRecord (app : App) (m : Message) (fault : Fault) (failedAt : Int) (id : List Char) : Record :=
  ⟨app.settings.deadLetterTopic, String.ofList id, .deadLetter (deadLetter m fault failedAt id)⟩

/-- Handles the change of a message. -/
def answer (app : App) (m : Message) : Act World (Option Wire.EventMessage) := do
  let change ← Act.ofExcept id (changeOf m)
  let now ← Act.observe fun w => (w.now, w)
  Handler.handle app.finder app.sources change now

/-- Publishes the event of a message, if there is one. -/
def finish (app : App) (latency : Number) : Option Wire.EventMessage → Act World Unit
  | none => measure (·.skipped latency)
  | some event => do
    app.publishEvent event
    measure (·.dispatched latency event.pages.length)

/-- Takes the time and publishes the event of a message, if there is one. -/
def conclude (app : App) (started : Number) (event : Option Wire.EventMessage) : Act World Unit := do
  let latency ← Act.ofExcept .number (latencyBetween started (← World.stopwatchTime))
  app.finish latency event

theorem processMessage_eq (app : App) (m : Message) : app.processMessage m = (do
    let started ← World.stopwatchTime
    let event ← app.answer m
    app.conclude started event) := by
  simp only [processMessage, answer, conclude, bind_assoc]
  refine bind_congr fun started => bind_congr fun change => bind_congr fun now => bind_congr fun event => ?_
  refine bind_congr fun ended => bind_congr fun latency => ?_
  cases event <;> rfl

theorem run_publishEvent (app : App) (e : Wire.EventMessage) (w : World) : (app.publishEvent e).run.run w =
    match eventKey e with
    | .ok key => (Publisher.publish (app.eventRecord e key)).run.run w
    | .error fault => (.error fault, w) := by
  unfold publishEvent eventKey
  cases Text.Utf8.writable e.entity with
  | error u => rfl
  | ok key =>
    rw [Act.run_ok_bind]
    cases Wire.write e.toValue with
    | error e => rfl
    | ok s => rfl

theorem run_answer_of_ok {change : Wire.ChangeMessage} (h : changeOf m = .ok change) :
    (app.answer m).run.run w = (Handler.handle app.finder app.sources change w.now).run.run w := by
  rw [answer, h, Act.run_ok_bind, Act.run_read_bind]

theorem run_answer_of_error {fault : Fault} (h : changeOf m = .error fault) :
    (app.answer m).run.run w = (.error fault, w) := by
  unfold answer
  rw [h]
  rfl

theorem run_measure_eq {α : Type} (f : Measures → Measures × Except Fault α) :
    (measure f).run.run w = ((f w.measures).2, { w with measures := (f w.measures).1 }) := by
  have hrun : (measure f).run.run w =
      (Act.ofExcept id (f w.measures).2).run.run { w with measures := (f w.measures).1 } := rfl
  rw [hrun, Act.run_ofExcept]
  cases (f w.measures).2 <;> rfl

theorem run_measure {α : Type} {f : Measures → Measures × Except Fault α} {measures : Measures} {a : α}
    (h : f w.measures = (measures, .ok a)) : (measure f).run.run w = (.ok a, { w with measures := measures }) := by
  rw [run_measure_eq, h]

theorem latencyBetween_eq_ok (x y : Binary64) : ∃ z, latencyBetween (.binary x) (.binary y) = .ok (.binary z) :=
  ⟨(y - x) * .ofInt 1000, rfl⟩

/-! ### In memory -/

/-- The dispatcher with usages and titles in memory. -/
def inMemory (settings : DispatchSettings) (finder : Finder) (store : UsageStore) (titles : TitleIndex)
    (depth : ℕ) : App :=
  ⟨settings, finder, .ofMemory store titles, depth⟩

/-- What the change of a message is handled to. -/
def handled (finder : Finder) (store : UsageStore) (titles : TitleIndex) (now : Instant) (m : Message) :
    Except Fault (Option Wire.EventMessage) := do
  let change ← changeOf m
  ((Handler.handle finder (.ofMemory store titles) change now).run.run ([] : List Note)).1

/-- What the handling of a message comes to: a fault, an event that can be written, or nothing. -/
def verdict (finder : Finder) (store : UsageStore) (titles : TitleIndex) (now : Instant) (m : Message) :
    Except Fault (Option Wire.EventMessage) := do
  match ← handled finder store titles now m with
  | none => return none
  | some e => (eventKey e).map fun _ => some e

variable {settings : DispatchSettings} {finder : Finder} {store : UsageStore} {titles : TitleIndex} {depth : ℕ}
  {now : Instant} {e : Wire.EventMessage} {fault : Fault}

theorem run_answer (m : Message) (w : World) : ∃ notes,
    ((inMemory settings finder store titles depth).answer m).run.run w =
      (handled finder store titles w.now m, { w with notes := notes }) := by
  cases hchange : changeOf m with
  | error fault =>
    refine ⟨w.notes, ?_⟩
    rw [run_answer_of_error hchange, handled, hchange]
    rfl
  | ok change =>
    have hgives : (Handler.handle finder (.ofMemory store titles) change w.now : Act World _).Gives
        (Handler.handleIn finder store titles change w.now) := Handler.handle_gives change w.now
    have hleads : (Handler.handle finder (.ofMemory store titles) change w.now).Leads World.OnlyNotes :=
      Handler.handle_leads (fun _ _ => ⟨_, rfl⟩) (Sources.lead_ofMemory store titles) change w.now
    have hhandled : handled finder store titles w.now m = Handler.handleIn finder store titles change w.now := by
      rw [handled, hchange]
      exact Handler.handle_gives change w.now []
    obtain ⟨notes, hnotes⟩ := hleads w
    refine ⟨notes, ?_⟩
    rw [run_answer_of_ok hchange, hhandled]
    exact Prod.ext (hgives w) hnotes

theorem verdict_eq_none : verdict finder store titles now m = .ok none ↔
    handled finder store titles now m = .ok none := by
  unfold verdict
  rcases handled finder store titles now m with fault | _ | e
  · exact ⟨nofun, nofun⟩
  · exact iff_of_true rfl rfl
  · dsimp only [bind, Except.bind]
    cases eventKey e with
    | error fault => exact ⟨nofun, nofun⟩
    | ok key => exact ⟨nofun, nofun⟩

theorem verdict_eq_some : verdict finder store titles now m = .ok (some e) ↔
    handled finder store titles now m = .ok (some e) ∧ ∃ key, eventKey e = .ok key := by
  unfold verdict
  rcases handled finder store titles now m with fault | _ | e'
  · exact ⟨nofun, fun h => nomatch h.1⟩
  · exact ⟨nofun, fun h => nomatch h.1⟩
  · dsimp only [bind, Except.bind]
    cases hkey : eventKey e' with
    | error fault =>
      refine ⟨nofun, ?_⟩
      rintro ⟨⟨⟩, key, h⟩
      rw [hkey] at h
      cases h
    | ok key =>
      constructor
      · rintro ⟨⟩
        exact ⟨rfl, key, hkey⟩
      · rintro ⟨⟨⟩, -⟩
        rfl

theorem length_pages_le (h : verdict finder store titles now m = .ok (some e)) :
    e.pages.length ≤ titles.byId.size := by
  obtain ⟨change, -, h⟩ := Outcome.bind_eq_ok.mp (verdict_eq_some.mp h).1
  rw [Handler.handle_gives] at h
  obtain ⟨c, pages, aspects, -, hpages, -, -, rfl⟩ := Handler.handleIn_eq_some_iff.mp h
  have hle := Finder.length_affectedIn_le hpages
  simpa [Handler.event] using hle

end App

end PageInvalidation.Dispatch
