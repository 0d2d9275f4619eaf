import PageInvalidation.Proofs.Dispatch.Message
import PageInvalidation.Proofs.Dispatch.Meters

/-! # Batches in memory

A batch that is handled in memory, while clocks, meters and the broker are as they should be. -/

namespace PageInvalidation.Dispatch

/-! ### What is counted on -/

/-- For some messages more, clocks can be read and the broker takes what is offered; meters do what is documented. -/
structure World.Cooperative (w : World) (count : ℕ) : Prop where
  takes : ∀ e ∈ w.broker.refusals, ∀ i < count, e.1 ≠ w.broker.offered + i
  stopwatch : ∀ i < 2 * count, ∃ x, (w.stopwatch.ahead i).shown = .ok (.binary x)
  clock : ∀ i < count, ∃ t millis, (w.clock.ahead i).shown = .ok t ∧ App.millisOf t = .ok millis
  meters : w.measures.meters.library.Documented

theorem World.Cooperative.mono {w : World} {n k : ℕ} (hw : w.Cooperative n) (h : k ≤ n) : w.Cooperative k where
  takes e he i hi := hw.takes e he i (by omega)
  stopwatch i hi := hw.stopwatch i (by omega)
  clock i hi := hw.clock i (by omega)
  meters := hw.meters

theorem World.Cooperative.nextOffer {w : World} {count : ℕ} (hw : w.Cooperative (count + 1)) :
    (Publisher.nextOffer w.broker).1 = none := by
  rw [Publisher.nextOffer, Option.map_eq_none_iff, List.find?_eq_none]
  exact fun e he => by simpa using hw.takes e he 0 (by omega)

/-! ### Verdicts -/

/-- Nothing comes of a message. -/
def isSkipped : Except Fault (Option Wire.EventMessage) → Bool
  | .ok none => true
  | _ => false

/-- An event comes of a message. -/
def isDispatched : Except Fault (Option Wire.EventMessage) → Bool
  | .ok (some _) => true
  | _ => false

/-- A fault comes of a message. -/
def isFailed : Except Fault (Option Wire.EventMessage) → Bool
  | .error _ => true
  | _ => false

theorem countP_verdicts (f : Message → Except Fault (Option Wire.EventMessage)) : ∀ ms : List Message,
    (ms.countP fun m => isDispatched (f m)) + (ms.countP fun m => isSkipped (f m)) +
      (ms.countP fun m => isFailed (f m)) = ms.length
  | [] => rfl
  | m :: ms => by
    have ih := countP_verdicts f ms
    have hone : (if isDispatched (f m) = true then 1 else 0) + (if isSkipped (f m) = true then 1 else 0) +
        (if isFailed (f m) = true then 1 else 0) = 1 := by
      rcases f m with fault | _ | e <;> rfl
    rw [List.countP_cons, List.countP_cons, List.countP_cons, List.length_cons]
    omega

namespace App

variable {settings : DispatchSettings} {finder : Finder} {store : UsageStore} {titles : TitleIndex} {depth : ℕ}
  {app : App} {m : Message} {ms ms' : List Message} {w w' w'' : World} {rs rs' : List Record} {r : Record}
  {e : Wire.EventMessage} {fault : Fault} {f : Message → Except Fault (Option Wire.EventMessage)}

/-- The record that answers a message: its event, or a dead letter filed under its identifier. -/
inductive Answers (app : App) (m : Message) : Except Fault (Option Wire.EventMessage) → Record → Prop
  | event (e : Wire.EventMessage) {key : List Char} (h : eventKey e = .ok key) :
    Answers app m (.ok (some e)) (app.eventRecord e key)
  | deadLetter (fault : Fault) (failedAt : Int) {id : List Char} (h : m.FiledUnder app.bodyDepth id) :
    Answers app m (.error fault) (app.deadLetterRecord m fault failedAt id)

/-- The calls that publish records one after the other. -/
def published (rs : List Record) : List Call := rs.flatMap fun r => [.produce r, .poll]

/-- What handling messages with given verdicts does to the world. -/
structure Handled (app : App) (f : Message → Except Fault (Option Wire.EventMessage)) (ms : List Message)
    (w w' : World) (rs : List Record) : Prop where
  now : w'.now = w.now
  refusals : w'.broker.refusals = w.broker.refusals
  offered : w'.broker.offered = w.broker.offered + rs.length
  stopwatch : ∃ n ≤ 2 * ms.length, w'.stopwatch = w.stopwatch.ahead n
  clock : ∃ n ≤ ms.length, w'.clock = w.clock.ahead n
  calls : w'.calls = w.calls ++ published rs
  answers : List.Forall₂ (fun m r => app.Answers m (f m) r) (ms.filter fun m => !isSkipped (f m)) rs
  dispatched : w'.measures.window.dispatched =
    w.measures.window.dispatched + ms.countP fun m => isDispatched (f m)
  skipped : w'.measures.window.skipped = w.measures.window.skipped + ms.countP fun m => isSkipped (f m)
  failed : w'.measures.window.failed = w.measures.window.failed + ms.countP fun m => isFailed (f m)
  library : w'.measures.meters.library = w.measures.meters.library

namespace Handled

theorem nil : app.Handled f [] w w [] where
  now := rfl
  refusals := rfl
  offered := rfl
  stopwatch := ⟨0, le_rfl, rfl⟩
  clock := ⟨0, le_rfl, rfl⟩
  calls := (List.append_nil _).symm
  answers := .nil
  dispatched := rfl
  skipped := rfl
  failed := rfl
  library := rfl

theorem append (h : app.Handled f ms w w' rs) (h' : app.Handled f ms' w' w'' rs') :
    app.Handled f (ms ++ ms') w w'' (rs ++ rs') where
  now := h'.now.trans h.now
  refusals := h'.refusals.trans h.refusals
  offered := by rw [h'.offered, h.offered, List.length_append, Nat.add_assoc]
  stopwatch := by
    obtain ⟨n, hn, hw⟩ := h.stopwatch
    obtain ⟨n', hn', hw'⟩ := h'.stopwatch
    refine ⟨n + n', ?_, by rw [hw', hw, Clock.ahead_ahead]⟩
    rw [List.length_append]
    omega
  clock := by
    obtain ⟨n, hn, hw⟩ := h.clock
    obtain ⟨n', hn', hw'⟩ := h'.clock
    refine ⟨n + n', ?_, by rw [hw', hw, Clock.ahead_ahead]⟩
    rw [List.length_append]
    omega
  calls := by rw [h'.calls, h.calls, published, published, published, List.flatMap_append, List.append_assoc]
  answers := by
    rw [List.filter_append]
    exact List.rel_append h.answers h'.answers
  dispatched := by rw [h'.dispatched, h.dispatched, List.countP_append, Nat.add_assoc]
  skipped := by rw [h'.skipped, h.skipped, List.countP_append, Nat.add_assoc]
  failed := by rw [h'.failed, h.failed, List.countP_append, Nat.add_assoc]
  library := h'.library.trans h.library

theorem length_le (h : app.Handled f ms w w' rs) : rs.length ≤ ms.length := by
  rw [← h.answers.length_eq]
  exact List.length_filter_le _ ms

/-- What is counted on for further messages still holds when the first of them are handled. -/
theorem cooperative {count : ℕ} (h : app.Handled f ms w w' rs) (hw : w.Cooperative (ms.length + count)) :
    w'.Cooperative count where
  takes e he i hi := by
    have hle := h.length_le
    rw [h.refusals] at he
    have hne := hw.takes e he (rs.length + i) (by omega)
    rw [h.offered]
    omega
  stopwatch i hi := by
    obtain ⟨n, hn, hw'⟩ := h.stopwatch
    rw [hw', Clock.ahead_ahead]
    exact hw.stopwatch (n + i) (by omega)
  clock i hi := by
    obtain ⟨n, hn, hw'⟩ := h.clock
    rw [hw', Clock.ahead_ahead]
    exact hw.clock (n + i) (by omega)
  meters := h.library ▸ hw.meters

end Handled

/-! ### One message -/

theorem run_processMessage {t : Number} (m : Message) (ht : w.stopwatch.shown = .ok t) : ∃ notes,
    ((inMemory settings finder store titles depth).processMessage m).run.run w =
      match handled finder store titles w.now m with
      | .error fault => (.error fault, { w with notes := notes, stopwatch := w.stopwatch.ahead 1 })
      | .ok event => ((inMemory settings finder store titles depth).conclude t event).run.run
          { w with notes := notes, stopwatch := w.stopwatch.ahead 1 } := by
  have hrun : ∃ notes, ((inMemory settings finder store titles depth).answer m).run.run
      { w with stopwatch := w.stopwatch.ahead 1 } = (_, { w with notes := notes, stopwatch := _ }) :=
    run_answer m _
  obtain ⟨notes, hanswer⟩ := hrun
  refine ⟨notes, ?_⟩
  rw [processMessage_eq, Act.run_bind, World.run_stopwatchTime ht]
  dsimp only
  rw [Act.run_bind, hanswer]
  cases handled finder store titles w.now m <;> rfl

theorem run_conclude (app : App) (event : Option Wire.EventMessage) (x : Binary64) {y : Binary64}
    (hy : w.stopwatch.shown = .ok (.binary y)) : ∃ z, (app.conclude (.binary x) event).run.run w =
      (app.finish (.binary z) event).run.run { w with stopwatch := w.stopwatch.ahead 1 } := by
  obtain ⟨z, hz⟩ := latencyBetween_eq_ok x y
  refine ⟨z, ?_⟩
  rw [conclude, Act.run_bind, World.run_stopwatchTime hy]
  dsimp only
  rw [hz, Act.run_ok_bind]

/-- The handling of a message fails with the fault of its verdict, before the event is published or while it is
written. -/
theorem run_processMessage_of_error {x y : Binary64} (hx : w.stopwatch.shown = .ok (.binary x))
    (hy : (w.stopwatch.ahead 1).shown = .ok (.binary y)) (h : verdict finder store titles w.now m = .error fault) :
    ∃ notes, ∃ n ≤ 2, ((inMemory settings finder store titles depth).processMessage m).run.run w =
      (.error fault, { w with notes := notes, stopwatch := w.stopwatch.ahead n }) := by
  obtain ⟨notes, hprocess⟩ : ∃ notes, ((inMemory settings finder store titles depth).processMessage m).run.run w = _ :=
    run_processMessage m hx
  unfold verdict at h
  rcases hhandled : handled finder store titles w.now m with fault' | _ | e
  · rw [hhandled] at h hprocess
    cases h
    exact ⟨notes, 1, by omega, hprocess⟩
  · rw [hhandled] at h
    cases h
  · rw [hhandled] at h hprocess
    dsimp only [bind, Except.bind] at h
    obtain ⟨z, hz⟩ := run_conclude (inMemory settings finder store titles depth) (some e) x
      (w := { w with notes := notes, stopwatch := w.stopwatch.ahead 1 }) hy
    refine ⟨notes, 2, le_rfl, hprocess.trans (hz.trans ?_)⟩
    rw [finish, Act.run_bind, run_publishEvent]
    cases hkey : eventKey e with
    | error fault' =>
      rw [hkey] at h
      cases h
      rfl
    | ok key =>
      rw [hkey] at h
      cases h

theorem record_eq {m : Measures} (h : m.meters.library.Documented) (window : Window) {calls : List MeterCall}
    (hcalls : ∀ c ∈ calls, c.Fits) : ∃ meters,
    m.record window calls = (⟨m.interval, window, meters⟩, .ok ()) ∧ meters.library = m.meters.library := by
  have hok : (m.meters.callEach calls).2 = .ok () := Meters.callEach_eq_ok h hcalls
  refine ⟨(m.meters.callEach calls).1, ?_, Meters.library_callEach calls m.meters⟩
  exact Prod.ext rfl hok

theorem dispatched_eq {m : Measures} (hm : m.meters.library.Documented) (z : Binary64) {n : ℕ} (h : n < 2 ^ 1023) :
    ∃ meters, m.dispatched (.binary z) n = (⟨m.interval, (m.window.addDispatched n).addLatency z, meters⟩, .ok ()) ∧
      meters.library = m.meters.library := by
  have hfinite : (Binary64.ofInt n).isFinite = true := Binary64.isFinite_ofInt (by rwa [Int.natAbs_natCast])
  have hrecord : m.dispatched (.binary z) n = m.record ((m.window.addDispatched n).addLatency z)
      [.count .changes 1, .count .pages n, Meters.latency z] := rfl
  rw [hrecord]
  refine record_eq hm _ ?_
  simp only [List.forall_mem_cons]
  exact ⟨by decide, ⟨Int.natCast_nonneg n, hfinite⟩, trivial, List.forall_mem_nil _⟩

theorem skipped_eq {m : Measures} (hm : m.meters.library.Documented) (z : Binary64) :
    ∃ meters, m.skipped (.binary z) = (⟨m.interval, m.window.addSkipped.addLatency z, meters⟩, .ok ()) ∧
      meters.library = m.meters.library := by
  have hrecord : m.skipped (.binary z) = m.record (m.window.addSkipped.addLatency z)
      [.count .changes 1, .count .skipped 1, Meters.latency z] := rfl
  rw [hrecord]
  refine record_eq hm _ ?_
  simp only [List.forall_mem_cons]
  exact ⟨by decide, by decide, trivial, List.forall_mem_nil _⟩

theorem failed_eq {m : Measures} (hm : m.meters.library.Documented) :
    ∃ meters, m.failed = (⟨m.interval, m.window.addFailed, meters⟩, .ok ()) ∧
      meters.library = m.meters.library := by
  refine record_eq hm _ ?_
  simp only [List.forall_mem_cons]
  exact ⟨by decide, List.forall_mem_nil _⟩

theorem run_publishDeadLetter (app : App) (fault : Fault) {id : List Char} {t : Number} {millis : Int}
    (hid : m.FiledUnder app.bodyDepth id) (ht : w.clock.shown = .ok t) (hmillis : millisOf t = .ok millis)
    (htaken : (Publisher.nextOffer w.broker).1 = none) : ∃ notes,
    (app.publishDeadLetter m fault).run.run w = (w.measures.failed.2,
      { { w with clock := w.clock.ahead 1 }.after
          [.produce (app.deadLetterRecord m fault millis id), .poll] notes with
        measures := w.measures.failed.1 }) := by
  obtain ⟨text, htext, hwritable⟩ := hid
  obtain ⟨u, hu⟩ : ∃ u, u = Journalled.record ⟨.error, source, DeadLetter.line text m⟩ w := ⟨_, rfl⟩
  have hclock : u.clock = w.clock := by rw [hu]; rfl
  have hbroker : u.broker = w.broker := by rw [hu]; rfl
  obtain ⟨notes, hpublish⟩ := Publisher.run_publish_of_taken (r := app.deadLetterRecord m fault millis id)
    (w := { u with clock := u.clock.ahead 1 }) (hbroker ▸ htaken)
  refine ⟨notes, ?_⟩
  rw [publishDeadLetter, htext, Act.run_ok_bind, Act.run_update_bind, ← hu, Act.run_bind,
    World.run_time (hclock ▸ ht)]
  dsimp only
  rw [hmillis, Act.run_ok_bind, hwritable, Act.run_ok_bind, Act.run_bind]
  have hrecord : (⟨app.settings.deadLetterTopic, (deadLetter m fault millis id).changeId,
      .deadLetter (deadLetter m fault millis id)⟩ : Record) = app.deadLetterRecord m fault millis id := rfl
  rw [hrecord, hpublish, hu]
  exact run_measure_eq _

theorem run_publishDeadLetter_of_unfiled (app : App) (fault : Fault)
    (hid : ∀ id, ¬m.FiledUnder app.bodyDepth id) (w : World) :
    ∃ fault' w', (app.publishDeadLetter m fault).run.run w = (.error fault', w') ∧ w'.calls = w.calls := by
  unfold publishDeadLetter
  cases htext : DeadLetter.idOf app.bodyDepth m.handledBytes with
  | error e => exact ⟨.dispatch e, w, rfl, rfl⟩
  | ok text =>
    rw [Act.run_ok_bind, Act.run_update_bind, Act.run_bind]
    obtain ⟨u, hu⟩ : ∃ u, Journalled.record ⟨.error, source, DeadLetter.line text m⟩ w = u := ⟨_, rfl⟩
    have hcalls : u.calls = w.calls := by rw [← hu]; rfl
    rw [hu]
    rw [World.run_time_eq]
    cases u.clock.shown with
    | error e => exact ⟨.number e, _, rfl, hcalls⟩
    | ok t =>
      dsimp only [Except.mapError]
      cases millisOf t with
      | error e => exact ⟨.number e, _, rfl, hcalls⟩
      | ok millis =>
        rw [Act.run_ok_bind]
        cases hwritable : Text.Utf8.writable text with
        | error e => exact ⟨.dispatch (.unwritable e), _, rfl, hcalls⟩
        | ok id => exact absurd ⟨text, htext, hwritable⟩ (hid id)

theorem Handled.of_published {u : World} {notes : List Note} {measures : Measures}
    {v : Except Fault (Option Wire.EventMessage)} (hv : f m = v) (hnow : u.now = w.now)
    (hbroker : u.broker = w.broker) (hcalls : u.calls = w.calls)
    (hstopwatch : ∃ n ≤ 2, u.stopwatch = w.stopwatch.ahead n) (hclock : ∃ n ≤ 1, u.clock = w.clock.ahead n)
    (hanswer : app.Answers m v r)
    (hd : measures.window.dispatched = w.measures.window.dispatched + if isDispatched v = true then 1 else 0)
    (hs : measures.window.skipped = w.measures.window.skipped + if isSkipped v = true then 1 else 0)
    (hf : measures.window.failed = w.measures.window.failed + if isFailed v = true then 1 else 0)
    (hlibrary : measures.meters.library = w.measures.meters.library) :
    app.Handled f [m] w { u.after [.produce r, .poll] notes with measures := measures } [r] := by
  subst hv
  obtain ⟨hrefusals, hoffered⟩ := u.offers_after_published r notes
  have hkept : isSkipped (f m) = false := by
    generalize f m = v at hanswer
    cases hanswer <;> rfl
  exact
    { now := hnow
      refusals := hrefusals.trans (by rw [hbroker])
      offered := hoffered.trans (by rw [hbroker]; rfl)
      stopwatch := hstopwatch
      clock := hclock
      calls := congrArg (· ++ [Call.produce r, .poll]) hcalls
      answers := by
        rw [List.filter_cons_of_pos (by simp [hkept]), List.filter_nil]
        exact .cons hanswer .nil
      dispatched := by simpa [List.countP_cons] using hd
      skipped := by simpa [List.countP_cons] using hs
      failed := by simpa [List.countP_cons] using hf
      library := hlibrary }

theorem run_dispatchMessage_of_error {v : World} (h : (app.processMessage m).run.run w = (.error fault, v)) :
    (app.dispatchMessage m).run.run w = (app.publishDeadLetter m fault).run.run v := by
  rw [dispatchMessage, Act.run_tryCatch, h]

variable (settings) in
theorem handled_of_error (hw : w.Cooperative 1) (h : verdict finder store titles w.now m = .error fault)
    {id : List Char} (hid : m.FiledUnder depth id) :
    ∃ w' r, ((inMemory settings finder store titles depth).dispatchMessage m).run.run w = (.ok (), w') ∧
      (inMemory settings finder store titles depth).Handled (verdict finder store titles w.now) [m] w w' [r] := by
  obtain ⟨x, hx⟩ : ∃ x, w.stopwatch.shown = .ok (.binary x) := hw.stopwatch 0 (by omega)
  obtain ⟨y, hy⟩ := hw.stopwatch 1 (by omega)
  obtain ⟨t, millis, ht, hmillis⟩ : ∃ t millis, w.clock.shown = .ok t ∧ millisOf t = .ok millis :=
    hw.clock 0 (by omega)
  obtain ⟨notes, n, hn, hprocess⟩ : ∃ notes, ∃ n ≤ 2,
      ((inMemory settings finder store titles depth).processMessage m).run.run w = _ :=
    run_processMessage_of_error hx hy h
  obtain ⟨app, happ⟩ : ∃ app, app = inMemory settings finder store titles depth := ⟨_, rfl⟩
  have hfiled : m.FiledUnder app.bodyDepth id := happ ▸ hid
  rw [← happ] at hprocess ⊢
  obtain ⟨notes', hpublish⟩ := run_publishDeadLetter app fault
    (w := { w with notes := notes, stopwatch := w.stopwatch.ahead n }) hfiled ht hmillis hw.nextOffer
  obtain ⟨meters, hmeasures, hlibrary⟩ := failed_eq hw.meters
  rw [hmeasures] at hpublish
  exact ⟨_, _, (run_dispatchMessage_of_error hprocess).trans hpublish,
    .of_published h rfl rfl rfl ⟨n, hn, rfl⟩ ⟨1, le_rfl, rfl⟩ (.deadLetter fault millis hfiled) rfl rfl rfl hlibrary⟩

variable (settings) in
theorem handled_of_none (hw : w.Cooperative 1) (h : verdict finder store titles w.now m = .ok none) :
    ∃ w', ((inMemory settings finder store titles depth).dispatchMessage m).run.run w = (.ok (), w') ∧
      (inMemory settings finder store titles depth).Handled (verdict finder store titles w.now) [m] w w' [] := by
  obtain ⟨x, hx⟩ : ∃ x, w.stopwatch.shown = .ok (.binary x) := hw.stopwatch 0 (by omega)
  obtain ⟨y, hy⟩ := hw.stopwatch 1 (by omega)
  obtain ⟨notes, hprocess⟩ : ∃ notes, ((inMemory settings finder store titles depth).processMessage m).run.run w = _ :=
    run_processMessage m hx
  obtain ⟨app, happ⟩ : ∃ app, app = inMemory settings finder store titles depth := ⟨_, rfl⟩
  rw [← happ, verdict_eq_none.mp h] at hprocess
  obtain ⟨z, hz⟩ := run_conclude app none x (w := { w with notes := notes, stopwatch := w.stopwatch.ahead 1 }) hy
  obtain ⟨meters, hmeasures, hlibrary⟩ := skipped_eq hw.meters z
  rw [← happ, dispatchMessage, Act.run_tryCatch, hprocess]
  dsimp only
  rw [hz, finish, run_measure hmeasures]
  refine ⟨_, rfl, ?_⟩
  exact
    { now := rfl
      refusals := rfl
      offered := rfl
      stopwatch := ⟨2, le_rfl, rfl⟩
      clock := ⟨0, by omega, rfl⟩
      calls := (List.append_nil _).symm
      answers := by
        rw [List.filter_cons_of_neg (by simp [h, isSkipped])]
        exact .nil
      dispatched := by simp [h, isDispatched]; rfl
      skipped := by simp [h, isSkipped]; rfl
      failed := by simp [h, isFailed]; rfl
      library := hlibrary }

variable (settings) in
theorem handled_of_some (hsize : titles.byId.size < 2 ^ 1023) (hw : w.Cooperative 1)
    (h : verdict finder store titles w.now m = .ok (some e)) :
    ∃ w' r, ((inMemory settings finder store titles depth).dispatchMessage m).run.run w = (.ok (), w') ∧
      (inMemory settings finder store titles depth).Handled (verdict finder store titles w.now) [m] w w' [r] := by
  obtain ⟨x, hx⟩ : ∃ x, w.stopwatch.shown = .ok (.binary x) := hw.stopwatch 0 (by omega)
  obtain ⟨y, hy⟩ := hw.stopwatch 1 (by omega)
  obtain ⟨hhandled, key, hkey⟩ := verdict_eq_some.mp h
  obtain ⟨notes, hprocess⟩ : ∃ notes, ((inMemory settings finder store titles depth).processMessage m).run.run w = _ :=
    run_processMessage m hx
  obtain ⟨app, happ⟩ : ∃ app, app = inMemory settings finder store titles depth := ⟨_, rfl⟩
  rw [← happ, hhandled] at hprocess
  obtain ⟨z, hz⟩ := run_conclude app (some e) x
    (w := { w with notes := notes, stopwatch := w.stopwatch.ahead 1 }) hy
  obtain ⟨notes', hpublish⟩ := Publisher.run_publish_of_taken (r := app.eventRecord e key)
    (w := { w with notes := notes, stopwatch := (w.stopwatch.ahead 1).ahead 1 }) hw.nextOffer
  obtain ⟨meters, hmeasures, hlibrary⟩ := dispatched_eq hw.meters z ((length_pages_le h).trans_lt hsize)
  rw [← happ, dispatchMessage, Act.run_tryCatch, hprocess]
  dsimp only
  rw [hz, finish, Act.run_bind, run_publishEvent, hkey]
  dsimp only
  rw [hpublish]
  dsimp only
  rw [run_measure hmeasures]
  exact ⟨_, _, rfl,
    .of_published h rfl rfl rfl ⟨2, le_rfl, rfl⟩ ⟨0, by omega, rfl⟩ (.event e hkey) rfl rfl rfl hlibrary⟩

variable (settings) in
/-- **One message.** Nothing is skipped, an event or a dead letter is published, if there is an identifier
to file it under. -/
theorem handled_message (hsize : titles.byId.size < 2 ^ 1023) (hw : w.Cooperative 1)
    (hfiled : ∀ fault, verdict finder store titles w.now m = .error fault → ∃ id, m.FiledUnder depth id) :
    ∃ w' rs, ((inMemory settings finder store titles depth).dispatchMessage m).run.run w = (.ok (), w') ∧
      (inMemory settings finder store titles depth).Handled (verdict finder store titles w.now) [m] w w' rs := by
  rcases hverdict : verdict finder store titles w.now m with fault | _ | e
  · obtain ⟨id, hid⟩ := hfiled fault hverdict
    obtain ⟨w', r, h⟩ := handled_of_error settings hw hverdict hid
    exact ⟨w', [r], h⟩
  · obtain ⟨w', h⟩ := handled_of_none settings hw hverdict
    exact ⟨w', [], h⟩
  · obtain ⟨w', r, h⟩ := handled_of_some settings hsize hw hverdict
    exact ⟨w', [r], h⟩

variable (settings) in
theorem fails_message (hw : w.Cooperative 1)
    (hverdict : verdict finder store titles w.now m = .error fault) (hid : ∀ id, ¬m.FiledUnder depth id) :
    ∃ fault' w', ((inMemory settings finder store titles depth).dispatchMessage m).run.run w =
      (.error fault', w') := by
  obtain ⟨x, hx⟩ : ∃ x, w.stopwatch.shown = .ok (.binary x) := hw.stopwatch 0 (by omega)
  obtain ⟨y, hy⟩ := hw.stopwatch 1 (by omega)
  obtain ⟨notes, n, -, hprocess⟩ : ∃ notes, ∃ n ≤ 2,
      ((inMemory settings finder store titles depth).processMessage m).run.run w = _ :=
    run_processMessage_of_error hx hy hverdict
  rw [run_dispatchMessage_of_error hprocess]
  obtain ⟨fault', w', hrun, -⟩ := run_publishDeadLetter_of_unfiled
    (inMemory settings finder store titles depth) fault hid { w with notes := notes, stopwatch := w.stopwatch.ahead n }
  exact ⟨fault', w', hrun⟩

/-! ### A batch -/

variable (settings) in
theorem handled_messages (hsize : titles.byId.size < 2 ^ 1023) (now : Instant) :
    ∀ (ms : List Message) (w : World), w.now = now → w.Cooperative ms.length →
      (∀ m ∈ ms, ∀ fault, verdict finder store titles now m = .error fault → ∃ id, m.FiledUnder depth id) →
      ∃ w' rs, (ms.forM (inMemory settings finder store titles depth).dispatchMessage).run.run w = (.ok (), w') ∧
        (inMemory settings finder store titles depth).Handled (verdict finder store titles now) ms w w' rs
  | [], w, _, _, _ => ⟨w, [], rfl, .nil⟩
  | m :: ms, w, hnow, hw, hfiled => by
    subst hnow
    obtain ⟨hm, hms⟩ := List.forall_mem_cons.mp hfiled
    have hw' : w.Cooperative (1 + ms.length) := Nat.add_comm ms.length 1 ▸ hw
    obtain ⟨w', rs, hrun, hhandled⟩ := handled_message settings hsize (hw'.mono (by omega)) hm
    obtain ⟨w'', rs', hrun', hhandled'⟩ :=
      handled_messages hsize w.now ms w' hhandled.now (hhandled.cooperative hw') hms
    refine ⟨w'', rs ++ rs', ?_, hhandled.append hhandled'⟩
    rw [Act.run_forM_cons, hrun]
    exact hrun'

variable (settings) in
theorem fails_messages (hsize : titles.byId.size < 2 ^ 1023) (now : Instant) :
    ∀ (ms : List Message) (w : World), w.now = now → w.Cooperative ms.length →
      (∃ m ∈ ms, (∃ fault, verdict finder store titles now m = .error fault) ∧ ∀ id, ¬m.FiledUnder depth id) →
      ∃ fault w', (ms.forM (inMemory settings finder store titles depth).dispatchMessage).run.run w =
        (.error fault, w')
  | [], _, _, _, h => by
    obtain ⟨m, hm, -⟩ := h
    cases hm
  | m :: ms, w, hnow, hw, h => by
    subst hnow
    have hw' : w.Cooperative (1 + ms.length) := Nat.add_comm ms.length 1 ▸ hw
    have hone : w.Cooperative 1 := hw'.mono (by omega)
    rw [Act.run_forM_cons]
    by_cases hm : (∃ fault, verdict finder store titles w.now m = .error fault) ∧ ∀ id, ¬m.FiledUnder depth id
    · obtain ⟨⟨fault, hverdict⟩, hid⟩ := hm
      obtain ⟨fault', w', hrun⟩ := fails_message settings hone hverdict hid
      exact ⟨fault', w', by rw [hrun]⟩
    · have hfiled : ∀ fault, verdict finder store titles w.now m = .error fault → ∃ id, m.FiledUnder depth id := by
        intro fault hverdict
        by_contra hid
        exact hm ⟨⟨fault, hverdict⟩, not_exists.mp hid⟩
      obtain ⟨w', rs, hrun, hhandled⟩ := handled_message settings hsize hone hfiled
      obtain ⟨m', hm', hbad⟩ := h
      have htail : m' ∈ ms := by
        rcases List.mem_cons.mp hm' with rfl | hm'
        · exact absurd hbad hm
        · exact hm'
      rw [hrun]
      exact fails_messages hsize w.now ms w' hhandled.now (hhandled.cooperative hw') ⟨m', htail, hbad⟩

/-- **After the messages** the broker is waited for; the batch is committed if everything was delivered. -/
theorem run_processBatch {batch : List Message}
    (hrun : (batch.forM app.dispatchMessage).run.run w = (.ok (), w')) : ∃ notes n,
    n = (Publisher.nextFlush w'.broker).1.2 + (w'.after [.flush Publisher.flushTimeout] notes).rejections ∧
    (Publisher.flush Publisher.flushTimeout).run.run w' =
      (.ok n, { w'.after [.flush Publisher.flushTimeout] notes with rejections := 0 }) ∧
    (app.processBatch batch).run.run w =
      if 0 < n then
        (.error (.dispatch (.undelivered n)),
          { w'.after [.flush Publisher.flushTimeout] notes with rejections := 0 })
      else
        (.ok (), { w'.after [.flush Publisher.flushTimeout, .commit] notes with rejections := 0 }) := by
  obtain ⟨notes, hflush⟩ := Publisher.run_flush Publisher.flushTimeout w'
  refine ⟨notes, _, rfl, hflush, ?_⟩
  rw [processBatch, Act.run_bind, hrun]
  dsimp only
  rw [Act.run_bind, hflush]
  dsimp only
  split
  · rfl
  · have hcommit : ∀ u : World,
        (World.call .commit).run.run u = (.ok (), { u with calls := u.calls ++ [.commit] }) := fun _ => rfl
    rw [hcommit]
    refine congrArg (Prod.mk (Except.ok ())) ?_
    simp [World.after, Ledger.step]

variable (settings finder store titles depth) in
/-- **What becomes of a batch.** While clocks and the broker are as they should be and the flush reports
nothing, the batch succeeds if and only if every message that fails gives an identifier. Then one record is
published for each message that is not skipped, the batch is committed once, after the flush, and every
message is counted once. -/
theorem batch_answered_iff_filed {batch : List Message} (hsize : titles.byId.size < 2 ^ 1023)
    (hw : w.Cooperative batch.length)
    (hflush : ∀ w' n u,
      (batch.forM (inMemory settings finder store titles depth).dispatchMessage).run.run w = (.ok (), w') →
      (Publisher.flush Publisher.flushTimeout).run.run w' = (.ok n, u) → n = 0) :
    ((((inMemory settings finder store titles depth).processBatch batch).run.run w).1 = .ok () ↔
      ∀ m ∈ batch, ∀ fault, verdict finder store titles w.now m = .error fault →
        ∃ id, m.FiledUnder depth id) ∧
    ∀ w', ((inMemory settings finder store titles depth).processBatch batch).run.run w = (.ok (), w') →
      (∃ rs, w'.calls = w.calls ++ published rs ++ [.flush Publisher.flushTimeout, .commit] ∧
        List.Forall₂
          (fun m r => (inMemory settings finder store titles depth).Answers m
            (verdict finder store titles w.now m) r)
          (batch.filter fun m => !isSkipped (verdict finder store titles w.now m)) rs) ∧
      w'.measures.window.dispatched = w.measures.window.dispatched +
        batch.countP (fun m => isDispatched (verdict finder store titles w.now m)) ∧
      w'.measures.window.skipped = w.measures.window.skipped +
        batch.countP (fun m => isSkipped (verdict finder store titles w.now m)) ∧
      w'.measures.window.failed = w.measures.window.failed +
        batch.countP (fun m => isFailed (verdict finder store titles w.now m)) ∧
      w'.measures.window.dispatched + w'.measures.window.skipped + w'.measures.window.failed =
        w.measures.window.dispatched + w.measures.window.skipped + w.measures.window.failed +
          batch.length := by
  by_cases hfiled : ∀ m ∈ batch, ∀ fault, verdict finder store titles w.now m = .error fault →
    ∃ id, m.FiledUnder depth id
  · obtain ⟨u, rs, hrun, hhandled⟩ := handled_messages settings hsize w.now batch w rfl hw hfiled
    obtain ⟨notes, n, -, hn, hbatch⟩ := run_processBatch hrun
    have hn0 : ¬0 < n := by
      have := hflush u n _ hrun hn
      omega
    rw [if_neg hn0] at hbatch
    rw [hbatch]
    refine ⟨iff_of_true rfl hfiled, ?_⟩
    rintro _ ⟨-, rfl⟩
    have hsum := countP_verdicts (verdict finder store titles w.now) batch
    have hd := hhandled.dispatched
    have hs := hhandled.skipped
    have hf := hhandled.failed
    refine ⟨⟨rs, ?_, hhandled.answers⟩, hd, hs, hf, ?_⟩
    · exact congrArg (· ++ [Call.flush Publisher.flushTimeout, .commit]) hhandled.calls
    · change u.measures.window.dispatched + u.measures.window.skipped + u.measures.window.failed = _
      omega
  · have hbad : ∃ m ∈ batch, (∃ fault, verdict finder store titles w.now m = .error fault) ∧
        ∀ id, ¬m.FiledUnder depth id := by
      push Not at hfiled
      obtain ⟨m, hm, fault, hverdict, hid⟩ := hfiled
      exact ⟨m, hm, ⟨fault, hverdict⟩, hid⟩
    obtain ⟨fault, u, hrun⟩ := fails_messages settings hsize w.now batch w rfl hw hbad
    have hbatch : ((inMemory settings finder store titles depth).processBatch batch).run.run w = (.error fault, u) := by
      rw [processBatch, Act.run_bind, hrun]
    rw [hbatch]
    have herror : (Except.error fault : Except Fault Unit) ≠ .ok () := nofun
    exact ⟨iff_of_false herror hfiled, fun w' h => absurd (congrArg Prod.fst h) herror⟩

/-- A world in which time stands still and the broker takes everything. -/
def calmWorld : World where
  notes := []
  calls := []
  answers := []
  clock := ⟨fun _ => .ok (.whole 0), 0⟩
  stopwatch := ⟨fun _ => .ok (.binary (.zero false)), 0⟩
  now := ⟨0, none⟩
  broker := .willing
  rejections := 0
  measures := .opened ⟨.ofDoubles, []⟩ (.whole 10) (.whole 0)
  running := true

theorem cooperative_calmWorld (count : ℕ) : calmWorld.Cooperative count where
  takes := nofun
  stopwatch _ _ := ⟨_, rfl⟩
  clock _ _ := ⟨_, _, rfl, rfl⟩
  meters := MeterLibrary.documented_ofDoubles

/-- Settings with short names. -/
def plainSettings : DispatchSettings :=
  ⟨"localhost:9092", "g", "earliest", "changes", "pages", "letters", 25, .ofInt 1, .ofInt 10, "", 1, 10⟩

/-- A message with a text as its body. -/
def messageOf (text : String) : Message := ⟨some (Text.Utf8.encode text.toList), "changes", 0, 0, false⟩

/-- A change that adds a label to an item. -/
def labelText : String :=
  "\x7b\"entity_id\":\"Q1\",\"diff\":\x7b\"operations\":\x7b\"labels\":\x7b\"type\":\"diff\"," ++
    "\"operations\":\x7b\"en\":\x7b\"type\":\"add\",\"newvalue\":\"Cat\"\x7d\x7d\x7d\x7d\x7d\x7d"

/-- A label of an item that a page uses, and a text that is no change. -/
theorem batch_answered_iff_filed_label :
    let batch := [messageOf labelText, messageOf "\x7b\"id\":7\x7d"]
    let store := UsageStore.empty.add 1 [⟨⟨"Q1", by decide⟩, .bare .all⟩]
    let titles := TitleIndex.empty.insert ⟨1, 0, "Cat", true⟩
    let app := inMemory plainSettings ⟨"enwiki", "en", true⟩ store titles 985
    ∃ w', (app.processBatch batch).run.run calmWorld = (.ok (), w') ∧
      w'.measures.window.dispatched = 1 ∧ w'.measures.window.skipped = 0 ∧ w'.measures.window.failed = 1 := by
  intro batch store titles app
  have hsize : titles.byId.size < 2 ^ 1023 :=
    Nat.lt_of_le_of_lt (by decide : titles.byId.size ≤ 1) (one_lt_pow₀ one_lt_two (Nat.succ_ne_zero 1022))
  have hflush : ∀ w' n u, (batch.forM app.dispatchMessage).run.run calmWorld = (.ok (), w') →
      (Publisher.flush Publisher.flushTimeout).run.run w' = (.ok n, u) → n = 0 := by
    have hcheck : ((Publisher.flush Publisher.flushTimeout).run.run
        ((batch.forM app.dispatchMessage).run.run calmWorld).2).1.toOption.all (· == 0) = true := by
      decide +kernel
    intro w' n u hrun hn
    rw [hrun, hn] at hcheck
    exact beq_iff_eq.mp hcheck
  have hfiled : ∀ m ∈ batch, (DeadLetter.idOf 985 m.handledBytes).toOption.any
      (fun text => (Text.Utf8.writable text).toOption.isSome) = true := by decide +kernel
  obtain ⟨hiff, hanswers⟩ := batch_answered_iff_filed plainSettings ⟨"enwiki", "en", true⟩ store titles 985 hsize
    (cooperative_calmWorld batch.length) hflush
  have hok : ((app.processBatch batch).run.run calmWorld).1 = .ok () := by
    refine hiff.mpr fun m hm fault _ => ?_
    obtain ⟨text, htext, hwritable⟩ := Outcome.exists_ok_of_any (hfiled m hm)
    cases hid : Text.Utf8.writable text with
    | error e => rw [hid] at hwritable; cases hwritable
    | ok id => exact ⟨id, text, htext, hid⟩
  obtain ⟨⟨r, w'⟩, hrun⟩ : ∃ p, (app.processBatch batch).run.run calmWorld = p := ⟨_, rfl⟩
  rw [hrun] at hok
  obtain rfl : r = .ok () := hok
  obtain ⟨-, hd, hs, hf, -⟩ := hanswers w' hrun
  refine ⟨w', hrun, hd.trans ?_, hs.trans ?_, hf.trans ?_⟩
  · decide +kernel
  · decide +kernel
  · decide +kernel

/-- **A message that no dead letter can be filed for stops the batch.** Its identifier is half of a pair. -/
theorem surrogate_identifier_stops_batch :
    let batch := [messageOf "\x7b\"id\":\"\\ud800\"\x7d", messageOf "\x7b\"id\":7\x7d"]
    let app := inMemory plainSettings ⟨"enwiki", "en", true⟩ .empty .empty 985
    calmWorld.Cooperative batch.length ∧ ∃ fault w',
      (app.processBatch batch).run.run calmWorld = (.error fault, w') ∧ w'.calls = [] := by
  intro batch app
  have hcheck : (match (app.processBatch batch).run.run calmWorld with
      | (.error _, w') => w'.calls.isEmpty
      | (.ok _, _) => false) = true := by decide +kernel
  refine ⟨cooperative_calmWorld batch.length, ?_⟩
  rcases hrun : (app.processBatch batch).run.run calmWorld with ⟨fault | _, w'⟩
  · rw [hrun] at hcheck
    exact ⟨fault, w', rfl, List.isEmpty_iff.mp hcheck⟩
  · rw [hrun] at hcheck
    cases hcheck

end App

end PageInvalidation.Dispatch
