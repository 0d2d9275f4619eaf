import PageInvalidation.Proofs.Dispatch.Run
import PageInvalidation.Proofs.Json.Ascii
import PageInvalidation.Proofs.Json.RoundTrip
import PageInvalidation.Proofs.Text.Utf8
import PageInvalidation.Proofs.Wire.Integers

/-! # Dead letters replayed

A dead letter is an ASCII text, and whoever reads it finds the body of the message in it, where the message came from,
and the identifier that it is filed under (`DeadLetter.Tells`). A body that is well-formed comes back byte by byte from
the text that the letter has for it. So a message that fails in a batch can be handed over again, whenever a dead
letter is produced for it at all (`dead_letter_replayable`): not for a body that no identifier can be made out of. -/

namespace PageInvalidation.Dispatch

/-! ### Reading a dead letter -/

namespace DeadLetter

open Text.CodeText (isScalar_ofString ofString)

variable {d : DeadLetter}

/-- A dead letter whose numbers are short enough to be read. -/
structure IsShort (d : DeadLetter) : Prop where
  failedAt : Text.IsShort d.failedAt
  partition : Text.IsShort d.partition
  offset : Text.IsShort d.offset

/-- A text is of ASCII characters and reads as an object with what a dead letter holds. -/
structure Tells (d : DeadLetter) (text : String) : Prop where
  ascii : Json.IsAscii text.toList
  reads : ∃ members, (∀ limit ≥ 2, Json.read (Json.lenient limit) text.toList = .ok (.obj members)) ∧
    Json.member? (ofString "raw_value") members = some (.str (ofString d.rawValue)) ∧
    Json.member? (ofString "source_topic") members = some (.str (ofString d.topic)) ∧
    Json.member? (ofString "source_partition") members = some (.int d.partition) ∧
    Json.member? (ofString "source_offset") members = some (.int d.offset) ∧
    Json.member? (ofString "change_id") members = some (.str (ofString d.changeId))

/-- **A dead letter is read as it was written**, however the fault and its trace are worded. -/
theorem tells_write (hd : d.IsShort) (description trace : String) : d.Tells (d.write description trace) := by
  obtain ⟨members, hmembers⟩ : ∃ members, d.toValue (.str description) (.str trace) = .obj members := ⟨_, rfl⟩
  have hchars : (d.write description trace).toList = Json.ascii.chars (.obj members) := by
    rw [write, Json.Layout.write, String.toList_ofList, hmembers]
  have hportable : (Json.obj members).Portable := by
    rw [← hmembers]
    exact ⟨by simp, by decide, hd.failedAt, by decide, isScalar_ofString _, by decide, hd.partition, by decide, hd.offset,
      by decide, isScalar_ofString _, by decide, isScalar_ofString _, by decide, isScalar_ofString _, by decide,
      isScalar_ofString _, by decide, isScalar_ofString _, trivial⟩
  have hdepth : (Json.obj members).depth = 2 := by
    rw [← hmembers]
    rfl
  have hread : ∀ limit ≥ 2, Json.read (Json.lenient limit) (d.write description trace).toList =
      .ok (.obj members) := by
    intro limit hlimit
    rw [hchars]
    exact Json.read_written Json.readable_ascii hportable (hdepth.le.trans hlimit)
  obtain rfl := Json.obj.inj hmembers
  exact ⟨hchars ▸ Json.isAscii_chars _, _, hread, rfl, rfl, rfl, rfl, rfl⟩

end DeadLetter

namespace App

variable {app : App} {m : Message} {pre post : List Message} {u v w : World} {fault : Fault} {x : Binary64}
  {millis : ℤ} {body : List Char} {r : Record}

/-! ### What a batch produces for a message -/

theorem isShort_millisOf (h : millisOf (.binary x) = .ok millis) : Text.IsShort millis := by
  obtain ⟨y, hy, hmillis⟩ := Outcome.bind_eq_ok.mp h
  obtain ⟨x', hx', hmul⟩ := Outcome.bind_eq_ok.mp hy
  obtain ⟨thousand, hthousand, hmul⟩ := Outcome.bind_eq_ok.mp hmul
  cases hmul
  rw [Number.toInteger, integerOfBinary] at hmillis
  split at hmillis
  · rename_i n htruncate
    cases hmillis
    exact Text.isShort_of_truncate htruncate
  · cases hmillis

theorem run_processBatch_append (h : (pre.forM app.dispatchMessage).run.run w = (.ok (), u)) :
    (app.processBatch (pre ++ post)).run.run w = (app.processBatch post).run.run u := by
  have hsplit : (pre ++ post).forM app.dispatchMessage =
      (pre.forM app.dispatchMessage >>= fun _ => post.forM app.dispatchMessage) := List.forM_append
  rw [processBatch, processBatch, hsplit, bind_assoc, Act.run_bind, h]

theorem calls_kept_of_processBatch (hs : app.sources.Lead World.OnlyAsks) (batch : List Message) (u : World) :
    u.calls <+: ((app.processBatch batch).run.run u).2.calls := by
  rcases hrun : (app.processBatch batch).run.run u with ⟨r, u'⟩
  rcases processBatch_cases hs hrun with ⟨-, hadv⟩ | ⟨v, notes, hmessages, hend⟩
  · exact hadv.calls_kept
  · have hkept := ((messages_leads hs batch).of_run hmessages).calls_kept
    rcases hend with ⟨-, -, rfl⟩ | ⟨-, -, rfl⟩
    · exact hkept.trans (List.prefix_append _ _)
    · exact hkept.trans (List.prefix_append _ _)

theorem produced_of_filed (hs : app.sources.Lead World.OnlyAsks)
    (hfault : (app.processMessage m).run.run u = (.error fault, v)) {id : List Char} (hid : m.FiledUnder app.bodyDepth id)
    (hclock : v.clock.shown = .ok (.binary x)) (hmillis : millisOf (.binary x) = .ok millis)
    (htaken : (Publisher.nextOffer v.broker).1 = none) (post : List Message) :
    v.calls ++ [.produce (app.deadLetterRecord m fault millis id)] <+:
      ((app.processBatch (m :: post)).run.run u).2.calls := by
  obtain ⟨notes, hpublish⟩ := run_publishDeadLetter app fault hid hclock hmillis htaken
  obtain ⟨v', hv'⟩ : ∃ v', { { v with clock := v.clock.ahead 1 }.after
    [.produce (app.deadLetterRecord m fault millis id), .poll] notes with measures := v.measures.failed.1 } = v' :=
      ⟨_, rfl⟩
  rw [hv'] at hpublish
  have hcalls : v'.calls = v.calls ++ [.produce (app.deadLetterRecord m fault millis id), .poll] := by
    rw [← hv']
    rfl
  have hnext : v.calls ++ [.produce (app.deadLetterRecord m fault millis id)] <+: v'.calls :=
    ⟨[.poll], by rw [hcalls, List.append_assoc]; rfl⟩
  have hmessage : (app.dispatchMessage m).run.run u = (v.measures.failed.2, v') :=
    (run_dispatchMessage_of_error hfault).trans hpublish
  cases hcounted : v.measures.failed.2 with
  | error fault' =>
    -- the library of meters refuses the count: the batch ends here
    rw [hcounted] at hmessage
    have hbatch : (app.processBatch (m :: post)).run.run u = (.error fault', v') := by
      rw [processBatch, Act.run_bind, Act.run_forM_cons, hmessage]
    rw [hbatch]
    exact hnext
  | ok _ =>
    rw [hcounted] at hmessage
    have hone : ([m].forM app.dispatchMessage).run.run u = (.ok (), v') := by
      rw [Act.run_forM_cons, hmessage]
      rfl
    have hbatch : (app.processBatch (m :: post)).run.run u = (app.processBatch post).run.run v' :=
      run_processBatch_append hone
    rw [hbatch]
    exact hnext.trans (calls_kept_of_processBatch hs post v')

theorem calls_of_unfiled (hfault : (app.processMessage m).run.run u = (.error fault, v))
    (hid : ∀ id, ¬m.FiledUnder app.bodyDepth id) (post : List Message) :
    ((app.processBatch (m :: post)).run.run u).2.calls = v.calls := by
  obtain ⟨fault', v', hpublish, hcalls⟩ := run_publishDeadLetter_of_unfiled app fault hid v
  have hmessages : ((m :: post).forM app.dispatchMessage).run.run u = (.error fault', v') := by
    rw [Act.run_forM_cons, run_dispatchMessage_of_error hfault, hpublish]
  rw [processBatch, Act.run_bind, hmessages]
  exact hcalls

/-! ### Replaying -/

/-- A record from which a message with a body can be handed over again: a dead letter with the body, where the message
came from and the key of the record, whose text tells all of this in whatever words the fault and its trace are
given. -/
structure Replayable (app : App) (m : Message) (body : List Char) (r : Record) (d : DeadLetter) : Prop where
  payload : r.payload = .deadLetter d
  topic : r.topic = app.settings.deadLetterTopic
  key : d.changeId = r.key
  source : d.topic = m.topic ∧ d.partition = m.partition ∧ d.offset = m.offset
  body : d.rawValue.toList = body
  bytes : Text.Utf8.encode d.rawValue.toList = m.bytes
  tells : ∀ description trace : String, d.Tells (d.write description trace)

theorem replayable_deadLetterRecord (app : App) (fault : Fault) (id : List Char)
    (hbody : Text.Utf8.encode body = m.bytes) (hm : Text.IsShort m.partition) (hm' : Text.IsShort m.offset)
    (hmillis : Text.IsShort millis) :
    app.Replayable m body (app.deadLetterRecord m fault millis id) (deadLetter m fault millis id) := by
  have hraw : (deadLetter m fault millis id).rawValue.toList = body := by
    rw [deadLetter, String.toList_ofList, ← hbody, Text.Utf8.decodeLossy_encode]
  exact
    { payload := rfl
      topic := rfl
      key := rfl
      source := ⟨rfl, rfl, rfl⟩
      body := hraw
      bytes := hraw ▸ hbody
      tells := DeadLetter.tells_write ⟨hmillis, hm, hm'⟩ }

/-- **A dead letter can be replayed.** A message of a batch fails, after those before it, and its body is well-formed.
If the body gives an identifier that can be written, the next record is a dead letter from which the message can be
handed over again; if not, nothing more is produced. -/
theorem dead_letter_replayable (hs : app.sources.Lead World.OnlyAsks)
    (hpre : (pre.forM app.dispatchMessage).run.run w = (.ok (), u))
    (hfault : (app.processMessage m).run.run u = (.error fault, v))
    (hbody : Text.Utf8.decode m.bytes = .ok body) (hm : Text.IsShort m.partition) (hm' : Text.IsShort m.offset)
    (hclock : v.clock.shown = .ok (.binary x)) (hmillis : millisOf (.binary x) = .ok millis)
    (htaken : (Publisher.nextOffer v.broker).1 = none) (post : List Message) :
    let calls := ((app.processBatch (pre ++ m :: post)).run.run w).2.calls
    ((∃ id, m.FiledUnder app.bodyDepth id) ↔ ∃ r, v.calls ++ [.produce r] <+: calls) ∧
      ∀ r, v.calls ++ [.produce r] <+: calls → ∃ d, app.Replayable m body r d := by
  intro calls
  have hcalls : calls = ((app.processBatch (m :: post)).run.run u).2.calls :=
    congrArg (fun p => p.2.calls) (run_processBatch_append hpre)
  by_cases hfiled : ∃ id, m.FiledUnder app.bodyDepth id
  · obtain ⟨id, hid⟩ := hfiled
    have hproduced := hcalls ▸ produced_of_filed hs hfault hid hclock hmillis htaken post
    refine ⟨iff_of_true ⟨id, hid⟩ ⟨_, hproduced⟩, fun r hr => ⟨deadLetter m fault millis id, ?_⟩⟩
    have hsame : [Call.produce r] = [.produce (app.deadLetterRecord m fault millis id)] := by
      have hlength := List.prefix_of_prefix_length_le hr hproduced (by simp)
      exact ((List.prefix_append_right_inj _).mp hlength).eq_of_length rfl
    cases hsame
    have hbytes := Text.Utf8.decode_eq_ok_iff.mp hbody
    exact replayable_deadLetterRecord app fault id hbytes hm hm' (isShort_millisOf hmillis)
  · have hnone : ∀ r, ¬v.calls ++ [.produce r] <+: calls := by
      intro r hr
      have hlength := hr.length_le
      rw [hcalls, calls_of_unfiled hfault (not_exists.mp hfiled), List.length_append, List.length_singleton] at hlength
      omega
    exact ⟨iff_of_false hfiled (not_exists.mpr hnone), fun r hr => absurd hr (hnone r)⟩

/-- A world whose clock stands still. -/
def timedWorld : World := { calmWorld with clock := ⟨fun _ => .ok (.binary (.zero false)), 0⟩ }

/-- A body of quotes, a control character and a character beyond the first 65536. -/
theorem dead_letter_replayable_quoted :
    let m := messageOf "\"\\\x01😀\""
    let app := inMemory plainSettings ⟨"enwiki", "en", true⟩ .empty .empty 985
    ∃ r d, [.produce r] <+: ((app.processBatch [m]).run.run timedWorld).2.calls ∧
      app.Replayable m "\"\\\x01😀\"".toList r d := by
  intro m app
  have hs : app.sources.Lead World.OnlyAsks := Sources.lead_ofMemory _ _
  have hfailed : isFailed (verdict ⟨"enwiki", "en", true⟩ .empty .empty timedWorld.now m) = true := by decide +kernel
  obtain ⟨fault, hverdict⟩ : ∃ fault, verdict ⟨"enwiki", "en", true⟩ .empty .empty timedWorld.now m = .error fault := by
    cases hv : verdict ⟨"enwiki", "en", true⟩ .empty .empty timedWorld.now m with
    | error fault => exact ⟨fault, rfl⟩
    | ok event =>
      rw [hv] at hfailed
      cases hfailed
  have hstopwatch : timedWorld.stopwatch.shown = .ok (.binary (.zero false)) := by decide +kernel
  obtain ⟨v, hfault, hclock, hbroker, hcalls⟩ : ∃ v, (app.processMessage m).run.run timedWorld = (.error fault, v) ∧
      v.clock = timedWorld.clock ∧ v.broker = timedWorld.broker ∧ v.calls = [] := by
    obtain ⟨notes, n, -, hrun⟩ : ∃ notes, ∃ n ≤ 2, (app.processMessage m).run.run timedWorld = _ :=
      run_processMessage_of_error hstopwatch hstopwatch hverdict
    exact ⟨_, hrun, rfl, rfl, rfl⟩
  have hbody : Text.Utf8.decode m.bytes = .ok "\"\\\x01😀\"".toList := Text.Utf8.decode_eq_ok_iff.mpr rfl
  have hid : ∃ id, m.FiledUnder app.bodyDepth id :=
    ⟨"unknown".toList, DeadLetter.unknownId, by decide +kernel, by decide +kernel⟩
  have hshown : v.clock.shown = .ok (.binary (.zero false)) := by
    rw [hclock]
    decide +kernel
  have hmillis : millisOf (.binary (.zero false)) = .ok 0 := by decide +kernel
  have htaken : (Publisher.nextOffer v.broker).1 = none := by rw [hbroker]; rfl
  have hnone : (([] : List Message).forM app.dispatchMessage).run.run timedWorld = (.ok (), timedWorld) := rfl
  obtain ⟨hiff, hreplayable⟩ := dead_letter_replayable hs hnone hfault hbody (by decide) (by decide) hshown hmillis
    htaken []
  simp only [hcalls, List.nil_append] at hiff hreplayable
  obtain ⟨r, hr⟩ := hiff.mp hid
  obtain ⟨d, hd⟩ := hreplayable r hr
  exact ⟨r, d, hr, hd⟩

/-- **No dead letter for half of a pair.** The body is well-formed and is no change, but it gives half of a pair as its
identifier. -/
theorem half_pair_not_replayable :
    let m := messageOf "\x7b\"id\":\"\\ud800\"\x7d"
    let app := inMemory plainSettings ⟨"enwiki", "en", true⟩ .empty .empty 985
    (∃ body, Text.Utf8.decode m.bytes = .ok body) ∧
      (∃ fault v, (app.processMessage m).run.run timedWorld = (.error fault, v)) ∧
      ¬∃ r, .produce r ∈ ((app.processBatch [m]).run.run timedWorld).2.calls := by
  intro m app
  have hcheck : ((match (app.processMessage m).run.run timedWorld with
        | (.error _, _) => true
        | (.ok _, _) => false) &&
      ((app.processBatch [m]).run.run timedWorld).2.calls.isEmpty) = true := by decide +kernel
  obtain ⟨hfault, hcalls⟩ := Bool.and_eq_true_iff.mp hcheck
  refine ⟨⟨_, Text.Utf8.decode_eq_ok_iff.mpr rfl⟩, ?_, ?_⟩
  · rcases hrun : (app.processMessage m).run.run timedWorld with ⟨fault | _, v⟩
    · exact ⟨fault, v, rfl⟩
    · rw [hrun] at hfault
      cases hfault
  · rintro ⟨r, hr⟩
    rw [List.isEmpty_iff.mp hcalls] at hr
    cases hr

end App

end PageInvalidation.Dispatch
