import PageInvalidation.Proofs.Dispatch.Advance
import PageInvalidation.Proofs.Dispatch.Batch

/-! # Runs

A run goes through its deliveries one round after the other. Only a round that hands over messages flushes
and commits, and it commits after the flush alone. The ledger of the calls made so far is kept by the state
from round to round: what was rejected since the last flush is counted, and nothing was rejected earlier. -/

namespace PageInvalidation.Dispatch

/-! ### Rounds -/

/-- The messages that a delivery hands over. -/
def Delivery.batch : Delivery → List Message
  | .messages _ ms => App.batchOf ms
  | .failure _ => []

/-- The records that a flush will leave undelivered: those reported as left, and those rejected. -/
def World.undelivered (w : World) : Int :=
  (Publisher.nextFlush w.broker).1.2 + (w.after [.flush Publisher.flushTimeout] w.notes).rejections

/-- The world after some calls the last of which were a flush and what follows it. -/
def World.settledAfter (w : World) (cs : List Call) (notes : List Note) : World :=
  { w.after cs notes with rejections := 0 }

namespace App

variable {app : App} {d : Delivery} {ds past : List Delivery} {handled : List Message}
  {w u u' v : World} {l : Ledger} {r : Except Fault Unit}

/-- A delivery is consumed and some of its messages are handled. -/
def Hands (app : App) (u : World) (d : Delivery) (handled : List Message) (v : World) : Prop :=
  ∃ u₁, (app.consume d).run.run u = (.ok d.batch, u₁) ∧
    (handled.forM app.dispatchMessage).run.run u₁ = (.ok (), v)

/-- Some rounds succeed one after the other, none of them after the run was asked to end. -/
inductive Rounds (app : App) : World → List Delivery → World → Prop
  | start {u : World} : Rounds app u [] u
  | next {u u₁ u' : World} {d : Delivery} {ds : List Delivery} (hrunning : u.running = true)
    (hround : (app.round d).run.run u = (.ok (), u₁)) (hrest : Rounds app u₁ ds u') :
    Rounds app u (d :: ds) u'

theorem onSignal_leads (signal : Int) : (onSignal signal).Leads World.Advances :=
  (Act.leads_note World.note_advances _ _ _).bind fun _ => Act.leads_update fun _ => .of_same rfl rfl rfl

theorem turnWindow_leads : turnWindow.Leads World.Advances := by
  refine World.time_leads.bind fun now => (measure_leads _).bind fun line => ?_
  cases line with
  | none => exact Act.leads_pure _
  | some line => exact Act.leads_note World.note_advances _ _ _

theorem consume_leads (d : Delivery) : (app.consume d).Leads World.Advances := by
  cases d with
  | messages signal ms =>
    refine (World.call_leads rfl fun _ => rfl).bind fun _ => ?_
    cases signal with
    | none => exact Act.leads_pure _
    | some signal => exact (onSignal_leads signal).bind fun _ => Act.leads_pure _
  | failure text => exact (World.call_leads rfl fun _ => rfl).bind fun _ => Act.leads_throw _

theorem batch_of_consume {b : List Message} (h : (app.consume d).run.run u = (.ok b, u')) : b = d.batch := by
  cases d with
  | messages signal ms =>
    cases signal with
    | none => cases h; rfl
    | some signal => cases h; rfl
  | failure text => cases h

/-- **What a batch comes to.** A message that cannot be handled ends it; otherwise it fails after the flush
or commits. -/
theorem processBatch_cases {batch : List Message} (hs : app.sources.Lead World.OnlyAsks)
    (h : (app.processBatch batch).run.run u = (r, u')) :
    (r ≠ .ok () ∧ u.Advances u') ∨
      ∃ v notes, (batch.forM app.dispatchMessage).run.run u = (.ok (), v) ∧
        ((0 < v.undelivered ∧ r = .error (.dispatch (.undelivered v.undelivered)) ∧
            u' = v.settledAfter [.flush Publisher.flushTimeout] notes) ∨
          (v.undelivered ≤ 0 ∧ r = .ok () ∧
            u' = v.settledAfter [.flush Publisher.flushTimeout, .commit] notes)) := by
  rcases hmessages : (batch.forM app.dispatchMessage).run.run u with ⟨e | _, v⟩
  · rw [processBatch, Act.run_bind, hmessages] at h
    cases h
    exact .inl ⟨by rintro ⟨⟩, (messages_leads hs _).of_run hmessages⟩
  · obtain ⟨notes, n, hn, -, hbatch⟩ := run_processBatch hmessages
    obtain rfl : n = v.undelivered := hn
    rw [h] at hbatch
    refine .inr ⟨v, notes, rfl, ?_⟩
    by_cases hpos : 0 < v.undelivered
    · rw [if_pos hpos] at hbatch
      cases hbatch
      exact .inl ⟨hpos, rfl, rfl⟩
    · rw [if_neg hpos] at hbatch
      cases hbatch
      exact .inr ⟨not_lt.mp hpos, rfl, rfl⟩

/-- **What a round comes to.** It ends no batch, or its messages are handled, and then it fails after the
flush or commits. -/
theorem round_cases (hs : app.sources.Lead World.OnlyAsks) (h : (app.round d).run.run u = (r, u')) :
    u.Advances u' ∨ ∃ v notes, d.batch ≠ [] ∧ app.Hands u d d.batch v ∧
      ((0 < v.undelivered ∧ r = .error (.dispatch (.undelivered v.undelivered)) ∧
          u' = v.settledAfter [.flush Publisher.flushTimeout] notes) ∨
        (v.undelivered ≤ 0 ∧
          (v.settledAfter [.flush Publisher.flushTimeout, .commit] notes).Advances u')) := by
  have hconsume : u.Advances ((app.consume d).run.run u).2 := consume_leads d u
  rw [round, Act.run_bind] at h
  rcases hd : (app.consume d).run.run u with ⟨e | b, u₁⟩
  · rw [hd] at h hconsume
    cases h
    exact .inl hconsume
  rw [hd] at h hconsume
  obtain rfl := batch_of_consume hd
  dsimp only at h
  cases hempty : d.batch.isEmpty with
  | true =>
    rw [hempty] at h
    exact .inl (trans_of World.Advances hconsume (turnWindow_leads.of_run h))
  | false =>
    rw [hempty] at h
    have hne : d.batch ≠ [] := fun hnil => by rw [hnil] at hempty; cases hempty
    have hbind : (app.processBatch d.batch >>= fun _ => turnWindow).run.run u₁ = (r, u') := h
    rw [Act.run_bind] at hbind
    rcases hbatch : (app.processBatch d.batch).run.run u₁ with ⟨r₁, u₂⟩
    rw [hbatch] at hbind
    rcases processBatch_cases hs hbatch with ⟨hfail, hadv⟩ | ⟨v, notes, hmessages, hend⟩
    · rcases r₁ with e | _
      · cases hbind
        exact .inl (trans_of World.Advances hconsume hadv)
      · exact absurd rfl hfail
    · refine .inr ⟨v, notes, hne, ⟨u₁, hd, hmessages⟩, ?_⟩
      rcases hend with ⟨hpos, rfl, rfl⟩ | ⟨hnone, rfl, rfl⟩
      · cases hbind
        exact .inl ⟨hpos, rfl, rfl⟩
      · exact .inr ⟨hnone, turnWindow_leads.of_run hbind⟩

end App

/-! ### The ledger of a run -/

namespace World

variable {l : Ledger} {w w' : World}

/-- A ledger that the world keeps: it has the same broker, and what was rejected is still counted. -/
def Keeps (w : World) (l : Ledger) : Prop := w.broker = l.broker ∧ l.rejected.length ≤ w.rejections

theorem Keeps.after {cs : List Call} (h : w.Keeps l)
    (hbroker : w'.broker = ((Ledger.opened w.broker).after cs).broker)
    (hrejections : w'.rejections = w.rejections + ((Ledger.opened w.broker).after cs).rejected.length) :
    w'.Keeps (l.after cs) := by
  rw [h.1] at hbroker hrejections
  rw [Ledger.after_eq_continuing]
  refine ⟨hbroker, ?_⟩
  have hcounted := h.2
  simp only [Ledger.continuing, List.length_append]
  omega

theorem Keeps.advances (h : w.Keeps l) (hadv : w.Advances w') : ∃ cs, (∀ c ∈ cs, c.concludes = false) ∧
    w'.calls = w.calls ++ cs ∧ w'.Keeps (l.after cs) := by
  obtain ⟨cs, hcs, hcalls, hbroker, hrejections⟩ := hadv
  exact ⟨cs, hcs, hcalls, h.after hbroker hrejections⟩

theorem Keeps.delivered {later : List Call} (h : w.Keeps l)
    (hhonest : l.Honest (.flush Publisher.flushTimeout :: later)) (hnone : w.undelivered ≤ 0) :
    (l.after [.flush Publisher.flushTimeout]).Delivered := by
  have hleft := hhonest [] Publisher.flushTimeout later rfl
  rw [Ledger.after_nil, List.nil_append] at hleft
  have hrejected : (l.after [.flush Publisher.flushTimeout]).rejected.length ≤
      (w.after [.flush Publisher.flushTimeout] w.notes).rejections := by
    rw [Ledger.after_eq_continuing, ← h.1]
    have := h.2
    simp only [Ledger.continuing, List.length_append, World.after]
    omega
  rw [undelivered, h.1, hleft] at hnone
  constructor
  · exact List.eq_nil_of_length_eq_zero (by omega)
  · exact List.eq_nil_of_length_eq_zero (by omega)

/-- When everything is delivered, the count starts anew. -/
theorem Keeps.settledAfter (h : w.Keeps l) (hdelivered : (l.after [.flush Publisher.flushTimeout]).Delivered)
    (notes : List Note) : (w.settledAfter [.flush Publisher.flushTimeout, .commit] notes).Keeps
      (l.after [.flush Publisher.flushTimeout, .commit]) := by
  have hcommit : l.after [.flush Publisher.flushTimeout, .commit] = l.after [.flush Publisher.flushTimeout] := rfl
  rw [hcommit]
  refine ⟨?_, by rw [hdelivered.2]; exact Nat.zero_le _⟩
  rw [Ledger.after_eq_continuing, ← h.1]
  rfl

end World

namespace Call

variable {cs cs' before later : List Call} {c : Call} {timeout : Number}

/-- A call that ends a batch does not come before calls that end none are over. -/
theorem exists_of_append_eq {rest : List Call} (hcs : ∀ c ∈ cs, c.concludes = false) (hc : c.concludes = true)
    (h : cs ++ rest = before ++ c :: later) : ∃ before', before = cs ++ before' ∧ rest = before' ++ c :: later := by
  rcases List.append_eq_append_iff.mp h with ⟨before', hbefore, hrest⟩ | ⟨cs', rfl, hlater⟩
  · exact ⟨before', hbefore, hrest⟩
  · cases cs' with
    | nil => exact ⟨[], by simp, hlater.symm⟩
    | cons c' cs' =>
      obtain ⟨rfl, -⟩ := List.cons.inj hlater
      have hquiet := hcs c (by simp)
      rw [hc] at hquiet
      cases hquiet

theorem eq_of_flush (hcs : ∀ c ∈ cs, c.concludes = false) (hc : c.concludes = true)
    (h : cs ++ [.flush timeout] = before ++ c :: later) : before = cs ∧ c = .flush timeout ∧ later = [] := by
  obtain ⟨before', rfl, hrest⟩ := exists_of_append_eq hcs hc h
  cases before' with
  | nil =>
    obtain ⟨rfl, rfl⟩ := List.cons.inj hrest
    exact ⟨List.append_nil _, rfl, rfl⟩
  | cons c' before' => simp at hrest

theorem eq_of_flush_commit (hcs : ∀ c ∈ cs, c.concludes = false) (hcs' : ∀ c ∈ cs', c.concludes = false)
    (hc : c.concludes = true) (h : cs ++ .flush timeout :: .commit :: cs' = before ++ c :: later) :
    before = cs ∧ c = .flush timeout ∨ before = cs ++ [.flush timeout] ∧ c = .commit := by
  obtain ⟨before', rfl, hrest⟩ := exists_of_append_eq hcs hc h
  match before' with
  | [] =>
    obtain ⟨rfl, -⟩ := List.cons.inj hrest
    exact .inl ⟨List.append_nil _, rfl⟩
  | [_] =>
    obtain ⟨rfl, hcommit⟩ := List.cons.inj hrest
    exact .inr ⟨rfl, (List.cons.inj hcommit).1.symm⟩
  | _ :: _ :: before'' =>
    obtain ⟨-, hcommit⟩ := List.cons.inj hrest
    obtain ⟨-, rfl⟩ := List.cons.inj hcommit
    have hquiet := hcs' c (by simp)
    rw [hc] at hquiet
    cases hquiet

end Call

namespace App

variable {app : App} {d : Delivery} {ds past : List Delivery} {w u u₀ u' v : World} {l : Ledger}
  {r : Except Fault Unit} {cs before later : List Call} {c : Call}

/-- How a call ends a batch: its messages were handled before. A commit comes right after the flush, when
everything is delivered; a flush that leaves something undelivered is the last call. -/
structure Ends (app : App) (u : World) (l : Ledger) (u₀ : World) (d : Delivery) (v : World)
    (before : List Call) (c : Call) (later : List Call) : Prop where
  nonempty : d.batch ≠ []
  handled : app.Hands u₀ d d.batch v
  commit : c = .commit →
    (l.after before).Delivered ∧ u.calls ++ before = v.calls ++ [.flush Publisher.flushTimeout]
  flush : ∀ timeout, c = .flush timeout → (l.after (before ++ [c])).Delivered ∨ later = []

theorem Hands.advances {handled : List Message} (hs : app.sources.Lead World.OnlyAsks)
    (h : app.Hands u d handled v) : u.Advances v := by
  obtain ⟨u₁, hconsume, hmessages⟩ := h
  exact trans_of World.Advances ((consume_leads d).of_run hconsume) ((messages_leads hs _).of_run hmessages)

theorem ends_of_round (hs : app.sources.Lead World.OnlyAsks) (hk : u.Keeps l)
    (hround : (app.round d).run.run u = (r, u')) (hcalls : u'.calls = u.calls ++ cs) (hhonest : l.Honest cs) :
    (r = .ok () → u'.Keeps (l.after cs)) ∧
      ∀ before c later, cs = before ++ c :: later → c.concludes = true → ∃ v,
        app.Ends u l u d v before c later ∧
          (r = .ok () → ∀ timeout, c = .flush timeout → (l.after (before ++ [c])).Delivered) := by
  rcases round_cases hs hround with hquiet | ⟨v, notes, hne, hhands, hend⟩
  · obtain ⟨cs', hcs', hcalls', hk'⟩ := hk.advances hquiet
    obtain rfl := List.append_cancel_left (hcalls.symm.trans hcalls')
    refine ⟨fun _ => hk', ?_⟩
    rintro before c later rfl hc
    have := hcs' c (by simp)
    rw [hc] at this
    cases this
  obtain ⟨cs₁, hcs₁, hv, hkv⟩ := hk.advances (hhands.advances hs)
  rcases hend with ⟨-, rfl, rfl⟩ | ⟨hnone, cs₂, hcs₂, hcalls₂, hbroker, hrejections⟩
  · obtain rfl : cs = cs₁ ++ [.flush Publisher.flushTimeout] := by
      refine List.append_cancel_left (hcalls.symm.trans ?_)
      rw [← List.append_assoc, ← hv]
      rfl
    refine ⟨by rintro ⟨⟩, fun before c later heq hc => ?_⟩
    obtain ⟨rfl, rfl, rfl⟩ := Call.eq_of_flush hcs₁ hc heq
    exact ⟨v, ⟨hne, hhands, by rintro ⟨⟩, fun _ _ => .inr rfl⟩, by rintro ⟨⟩⟩
  · obtain rfl : cs = cs₁ ++ (.flush Publisher.flushTimeout :: .commit :: cs₂) := by
      refine List.append_cancel_left (hcalls.symm.trans (hcalls₂.trans ?_))
      simp [World.settledAfter, World.after, hv]
    have hdelivered := hkv.delivered hhonest.after hnone
    have hk' := (hkv.settledAfter hdelivered notes).after hbroker hrejections
    rw [← Ledger.after_append] at hdelivered hk'
    refine ⟨fun _ => ?_, fun before c later heq hc => ?_⟩
    · rw [← Ledger.after_append] at hk'
      simpa using hk'
    rcases Call.eq_of_flush_commit hcs₁ hcs₂ hc heq with ⟨rfl, rfl⟩ | ⟨rfl, rfl⟩
    · refine ⟨v, ⟨hne, hhands, by rintro ⟨⟩, ?_⟩, ?_⟩
      · rintro _ ⟨⟩
        exact .inl hdelivered
      · rintro - _ ⟨⟩
        exact hdelivered
    · refine ⟨v, ⟨hne, hhands, fun _ => ⟨hdelivered, ?_⟩, by rintro _ ⟨⟩⟩, by rintro - _ ⟨⟩⟩
      rw [hv, List.append_assoc]

/-- Calls made earlier do not change how a call ends a batch. -/
theorem Ends.of_later (hcalls : u.calls ++ cs = w.calls) (h : app.Ends w (l.after cs) u₀ d v before c later) :
    app.Ends u l u₀ d v (cs ++ before) c later where
  nonempty := h.nonempty
  handled := h.handled
  commit hcommit := by
    rw [Ledger.after_append, ← List.append_assoc, hcalls]
    exact h.commit hcommit
  flush timeout hflush := by
    rw [List.append_assoc, Ledger.after_append]
    exact h.flush timeout hflush

/-! ### Rounds one after the other -/

/-- Rounds one after the other, as long as the run is not asked to end. -/
def sequence (app : App) : List Delivery → Act World Unit
  | [] => pure ()
  | d :: ds => do
    if ← isRunning then
      app.round d
      app.sequence ds

theorem rounds_eq : ∀ ds : List Delivery, app.rounds ds = app.sequence (ds ++ [.last])
  | [] => by
    simp [rounds, sequence]
  | d :: ds => by
    rw [rounds, rounds_eq ds]
    rfl

theorem run_sequence_cons (ds : List Delivery) (hrunning : u.running = true) :
    (app.sequence (d :: ds)).run.run u = (app.round d >>= fun _ => app.sequence ds).run.run u := by
  have hrun : (app.sequence (d :: ds)).run.run u =
      (if u.running = true then app.round d >>= fun _ => app.sequence ds else pure ()).run.run u := rfl
  rw [hrun, if_pos hrunning]

theorem run_sequence_of_stopped (ds : List Delivery) (hrunning : u.running ≠ true) :
    (app.sequence ds).run.run u = (.ok (), u) := by
  cases ds with
  | nil => rfl
  | cons d ds =>
    have hrun : (app.sequence (d :: ds)).run.run u =
        (if u.running = true then app.round d >>= fun _ => app.sequence ds else pure ()).run.run u := rfl
    rw [hrun, if_neg hrunning]
    rfl

theorem Rounds.run_sequence (h : app.Rounds u past u₀) (rest : List Delivery) :
    (app.sequence (past ++ rest)).run.run u = (app.sequence rest).run.run u₀ := by
  induction h with
  | start => rfl
  | next hrunning hround _ ih =>
    rw [List.cons_append, run_sequence_cons _ hrunning, Act.run_bind, hround]
    exact ih

theorem calls_kept_of_round (hs : app.sources.Lead World.OnlyAsks)
    (h : (app.round d).run.run u = (r, u')) : u.calls <+: u'.calls := by
  rcases round_cases hs h with hquiet | ⟨v, notes, -, hhands, ⟨-, -, rfl⟩ | ⟨-, hlast⟩⟩
  · exact hquiet.calls_kept
  · exact (hhands.advances hs).calls_kept.trans (List.prefix_append _ _)
  · exact ((hhands.advances hs).calls_kept.trans (List.prefix_append _ _)).trans hlast.calls_kept

theorem Rounds.calls_kept (hs : app.sources.Lead World.OnlyAsks) (h : app.Rounds u past u₀) :
    u.calls <+: u₀.calls := by
  induction h with
  | start => exact List.prefix_refl _
  | next _ hround _ ih => exact (calls_kept_of_round hs hround).trans ih

theorem calls_kept_of_sequence (hs : app.sources.Lead World.OnlyAsks) : ∀ (ds : List Delivery) (u : World),
    u.calls <+: ((app.sequence ds).run.run u).2.calls
  | [], u => List.prefix_refl _
  | d :: ds, u => by
    by_cases hrunning : u.running = true
    · rw [run_sequence_cons ds hrunning, Act.run_bind]
      rcases hround : (app.round d).run.run u with ⟨e | _, u₁⟩
      · exact calls_kept_of_round hs hround
      · exact (calls_kept_of_round hs hround).trans (calls_kept_of_sequence hs ds u₁)
    · rw [run_sequence_of_stopped _ hrunning]

/-- **Each call that ends a batch ends the batch of one of the deliveries.** -/
theorem ends_of_sequence (hs : app.sources.Lead World.OnlyAsks) : ∀ (ds : List Delivery) {u : World}
    {l : Ledger} {cs : List Call}, u.Keeps l → ((app.sequence ds).run.run u).2.calls = u.calls ++ cs →
    l.Honest cs → ∀ {before c later}, cs = before ++ c :: later → c.concludes = true →
    ∃ past d rest u₀ v, ds = past ++ d :: rest ∧ app.Rounds u past u₀ ∧ u₀.running = true ∧
      app.Ends u l u₀ d v before c later
  | [], u, l, cs, _, hcalls, _, before, c, later, heq, _ => by
    obtain rfl := List.self_eq_append_right.mp hcalls
    simp at heq
  | d :: ds, u, l, cs, hk, hcalls, hhonest, before, c, later, heq, hc => by
    by_cases hrunning : u.running = true
    swap
    · rw [run_sequence_of_stopped _ hrunning] at hcalls
      obtain rfl := List.self_eq_append_right.mp hcalls
      simp at heq
    rw [run_sequence_cons ds hrunning, Act.run_bind] at hcalls
    rcases hround : (app.round d).run.run u with ⟨e | _, u₁⟩
    · rw [hround] at hcalls
      obtain ⟨v, hends, -⟩ := (ends_of_round hs hk hround hcalls hhonest).2 before c later heq hc
      exact ⟨[], d, ds, u, v, rfl, .start, hrunning, hends⟩
    rw [hround] at hcalls
    obtain ⟨cs₁, hcs₁⟩ := calls_kept_of_round hs hround
    obtain ⟨cs₂, hcs₂⟩ := calls_kept_of_sequence hs ds u₁
    obtain rfl : cs = cs₁ ++ cs₂ := by
      refine List.append_cancel_left (hcalls.symm.trans ?_)
      rw [← List.append_assoc, hcs₁]
      exact hcs₂.symm
    obtain ⟨hkept, hfirst⟩ := ends_of_round hs hk hround hcs₁.symm hhonest.of_append
    -- The call belongs to a later round, or to the first one.
    have hlater : ∀ before', before = cs₁ ++ before' → cs₂ = before' ++ c :: later →
        ∃ past d' rest u₀ v, d :: ds = past ++ d' :: rest ∧ app.Rounds u past u₀ ∧ u₀.running = true ∧
          app.Ends u l u₀ d' v before c later := by
      rintro before' rfl heq'
      obtain ⟨past, d', rest, u₀, v, rfl, hrounds, hrun, hends⟩ :=
        ends_of_sequence hs ds (hkept rfl) hcs₂.symm hhonest.after heq' hc
      exact ⟨d :: past, d', rest, u₀, v, rfl, .next hrunning hround hrounds, hrun, hends.of_later hcs₁⟩
    rcases List.append_eq_append_iff.mp heq with ⟨before', hbefore, heq'⟩ | ⟨cs', hcs', hrest⟩
    · exact hlater before' hbefore heq'
    · cases cs' with
      | nil => exact hlater [] (by rw [List.append_nil, hcs', List.append_nil]) hrest.symm
      | cons c' later₁ =>
        obtain ⟨rfl, rfl⟩ := List.cons.inj hrest
        obtain ⟨v, hends, hflush⟩ := hfirst before c later₁ hcs' hc
        exact ⟨[], d, ds, u, v, rfl, .start, hrunning, hends.nonempty, hends.handled, hends.commit,
          fun timeout heq => .inl (hflush rfl timeout heq)⟩

/-! ### Runs -/

/-- The world when the first round begins. -/
def begun (app : App) (w : World) : World :=
  Journalled.record
    ⟨.info, source, Text.CodeText.ofString ("change dispatch started topic=" ++ app.settings.changesTopic)⟩
    (w.after [.handleSignal interrupt, .handleSignal terminate] w.notes)

/-- The calls of a run. -/
def trace (app : App) (ds : List Delivery) (w : World) : List Call :=
  ((app.run ds).run.run w).2.calls.drop w.calls.length

theorem run_stop (w : World) : ∃ notes,
    stop.run.run w = (.ok (), w.after [.closeConsumer, .flush Publisher.flushTimeout] notes) := by
  obtain ⟨notes, hclose⟩ := Publisher.run_close (w.after [.closeConsumer] w.notes)
  have hcall := World.run_call (c := .closeConsumer) (fun _ => rfl) w
  rw [World.after_after] at hclose
  unfold stop
  rw [Act.run_bind, hcall]
  dsimp only
  rw [Act.run_bind, hclose]
  exact ⟨_, rfl⟩

/-- When a run is over, the connections are closed; it fails if a round did. -/
theorem run_run (ds : List Delivery) (w : World) : ∃ notes, (app.run ds).run.run w =
    (((app.sequence (ds ++ [.last])).run.run (app.begun w)).1,
      ((app.sequence (ds ++ [.last])).run.run (app.begun w)).2.after
        [.closeConsumer, .flush Publisher.flushTimeout] notes) := by
  have hbegin : ∀ k : Unit → Act World Unit,
      (World.call (.handleSignal interrupt) >>= fun _ => World.call (.handleSignal terminate) >>= fun _ =>
        Act.note .info source (Text.CodeText.ofString
          ("change dispatch started topic=" ++ app.settings.changesTopic)) >>= k).run.run w =
      (k ()).run.run (app.begun w) := by
    intro k
    rw [Act.run_bind, World.run_call fun _ => rfl]
    dsimp only
    rw [Act.run_bind, World.run_call fun _ => rfl]
    dsimp only
    rw [World.after_after]
    rfl
  rw [← rounds_eq]
  unfold run
  rw [hbegin, Act.run_bind, Act.run_tryCatch, Act.run_bind]
  rcases (app.rounds ds).run.run (app.begun w) with ⟨r, u⟩
  obtain ⟨notes, hstop⟩ := run_stop u
  have hend : ∀ k : Act World Unit, (stop >>= fun _ => k).run.run u =
      k.run.run (u.after [.closeConsumer, .flush Publisher.flushTimeout] notes) := fun k => by
    rw [Act.run_bind, hstop]
  refine ⟨notes, ?_⟩
  cases r with
  | error fault => exact hend (throw fault)
  | ok _ => exact hend (pure ())

/-- A state in which a run has consumed a delivery, after some others, and handled some of its messages. -/
def Reaches (app : App) (w : World) (past : List Delivery) (d : Delivery) (handled : List Message)
    (u : World) : Prop :=
  ∃ u₀, app.Rounds (app.begun w) past u₀ ∧ u₀.running = true ∧ app.Hands u₀ d handled u

/-- Each message of some deliveries was handled before some calls were over, and is accounted for. -/
def AllAccounted (app : App) (w : World) (ds : List Delivery) (cs : List Call) : Prop :=
  ∀ past d handled m remaining, past ++ [d] <+: ds → d.batch = handled ++ m :: remaining →
    ∃ u u', app.Reaches w past d handled u ∧ (app.dispatchMessage m).run.run u = (.ok (), u') ∧
      u'.calls <+: cs ∧ app.Accounted m u u'

theorem AllAccounted.mono {cs' : List Call} (h : app.AllAccounted w ds cs) (hcs : cs <+: cs') :
    app.AllAccounted w ds cs' := by
  intro past d handled m remaining hprefix hbatch
  obtain ⟨u, u', hreaches, hdispatch, hcalls, haccounted⟩ := h past d handled m remaining hprefix hbatch
  exact ⟨u, u', hreaches, hdispatch, hcalls.trans hcs, haccounted⟩

theorem Rounds.split {past rest : List Delivery} : ∀ {u u' : World}, app.Rounds u (past ++ d :: rest) u' →
    ∃ u₀ u₁, app.Rounds u past u₀ ∧ u₀.running = true ∧ (app.round d).run.run u₀ = (.ok (), u₁) ∧
      app.Rounds u₁ rest u' := by
  induction past with
  | nil =>
    rintro u u' (_ | ⟨hrunning, hround, hrest⟩)
    exact ⟨u, _, .start, hrunning, hround, hrest⟩
  | cons d' past ih =>
    rintro u u' (_ | ⟨hrunning, hround, hrest⟩)
    obtain ⟨u₀, u₁, hpast, h⟩ := ih hrest
    exact ⟨u₀, u₁, .next hrunning hround hpast, h⟩

theorem hands_of_round (hs : app.sources.Lead World.OnlyAsks) (hne : d.batch ≠ [])
    (h : (app.round d).run.run u = (.ok (), u')) : ∃ v, app.Hands u d d.batch v ∧ v.calls <+: u'.calls := by
  obtain ⟨b, u₁, hconsume, hrest⟩ := Act.run_bind_eq_ok.mp h
  obtain rfl := batch_of_consume hconsume
  have hempty : d.batch.isEmpty = false := by simpa using hne
  rw [hempty] at hrest
  obtain ⟨_, u₂, hbatch, hturn⟩ := Act.run_bind_eq_ok.mp hrest
  rcases processBatch_cases hs hbatch with ⟨hfail, -⟩ | ⟨v, notes, hmessages, hend⟩
  · exact absurd rfl hfail
  · refine ⟨v, ⟨u₁, hconsume, hmessages⟩, ?_⟩
    rcases hend with ⟨-, hfail, -⟩ | ⟨-, -, rfl⟩
    · cases hfail
    · exact (List.prefix_append _ _).trans (turnWindow_leads.of_run hturn).calls_kept

theorem Hands.accounted {m : Message} {handled remaining : List Message}
    (hs : app.sources.Lead World.OnlyAsks) (h : app.Hands u₀ d (handled ++ m :: remaining) v) : ∃ u u',
    app.Hands u₀ d handled u ∧ (app.dispatchMessage m).run.run u = (.ok (), u') ∧
      u'.calls <+: v.calls ∧ app.Accounted m u u' := by
  obtain ⟨u₁, hconsume, hmessages⟩ := h
  have hsplit : (handled ++ m :: remaining).forM app.dispatchMessage =
      (handled.forM app.dispatchMessage >>= fun _ => app.dispatchMessage m >>= fun _ =>
        remaining.forM app.dispatchMessage) := List.forM_append
  rw [hsplit] at hmessages
  obtain ⟨_, u, hhandled, hrest⟩ := Act.run_bind_eq_ok.mp hmessages
  obtain ⟨_, u', hdispatch, hremaining⟩ := Act.run_bind_eq_ok.mp hrest
  exact ⟨u, u', ⟨u₁, hconsume, hhandled⟩, hdispatch, ((messages_leads hs _).of_run hremaining).calls_kept,
    accounted_of_dispatch hs hdispatch⟩

theorem Reaches.allAccounted (hs : app.sources.Lead World.OnlyAsks) (h : app.Reaches w past d d.batch v) :
    app.AllAccounted w (past ++ [d]) v.calls := by
  obtain ⟨u₀, hrounds, hrunning, hhands⟩ := h
  intro past' d' handled m remaining hprefix hbatch
  rcases List.prefix_concat_iff.mp hprefix with heq | ⟨rest, heq⟩
  · obtain ⟨rfl, rfl⟩ : past' = past ∧ d' = d := by simpa using heq
    rw [hbatch] at hhands
    obtain ⟨u, u', hu, hdispatch, hcalls, haccounted⟩ := hhands.accounted hs
    exact ⟨u, u', ⟨u₀, hrounds, hrunning, hu⟩, hdispatch, hcalls, haccounted⟩
  · rw [List.append_assoc, List.singleton_append] at heq
    subst heq
    obtain ⟨u₁, u₂, hpast, hrunning', hround, hrest⟩ := hrounds.split
    obtain ⟨v', hhands', hv'⟩ := hands_of_round hs (by rw [hbatch]; simp) hround
    rw [hbatch] at hhands'
    obtain ⟨u, u', hu, hdispatch, hcalls, haccounted⟩ := hhands'.accounted hs
    refine ⟨u, u', ⟨u₁, hpast, hrunning', hu⟩, hdispatch, ?_, haccounted⟩
    exact hcalls.trans (hv'.trans ((hrest.calls_kept hs).trans (hhands.advances hs).calls_kept))

/-- The calls with which a run begins. -/
def opening : List Call := [.handleSignal interrupt, .handleSignal terminate]

/-- The calls with which a run ends. -/
def closing : List Call := [.closeConsumer, .flush Publisher.flushTimeout]

theorem trace_eq (hs : app.sources.Lead World.OnlyAsks) (ds : List Delivery) (w : World) : ∃ cs,
    ((app.sequence (ds ++ [.last])).run.run (app.begun w)).2.calls = (app.begun w).calls ++ cs ∧
      app.trace ds w = opening ++ (cs ++ closing) := by
  obtain ⟨cs, hcs⟩ := calls_kept_of_sequence hs (ds ++ [.last]) (app.begun w)
  obtain ⟨notes, hrun⟩ : ∃ notes, (app.run ds).run.run w = (_, _) := run_run ds w
  refine ⟨cs, hcs.symm, ?_⟩
  have hcalls : ((app.run ds).run.run w).2.calls = w.calls ++ (opening ++ (cs ++ closing)) := by
    rw [hrun]
    change ((app.sequence (ds ++ [.last])).run.run (app.begun w)).2.calls ++ closing = _
    rw [← hcs]
    change w.calls ++ opening ++ cs ++ closing = _
    simp only [List.append_assoc]
  rw [trace, hcalls, List.drop_left]

/-- Each call of a run that ends a batch belongs to a delivery, apart from the flush with which the run
ends. -/
theorem ends_of_run (hs : app.sources.Lead World.OnlyAsks)
    (hhonest : (Ledger.opened w.broker).Honest (app.trace ds w)) (h : app.trace ds w = before ++ c :: later)
    (hc : c.concludes = true) : c ≠ .commit ∧ later = [] ∨
      ∃ past d rest u₀ v later', ds ++ [.last] = past ++ d :: rest ∧ app.Rounds (app.begun w) past u₀ ∧
        u₀.running = true ∧ app.Ends w (.opened w.broker) u₀ d v before c later' ∧
        later = later' ++ closing := by
  obtain ⟨cs, hcs, htrace⟩ := trace_eq hs ds w
  rw [htrace] at h hhonest
  have hkeeps : (app.begun w).Keeps ((Ledger.opened w.broker).after opening) := ⟨rfl, Nat.zero_le _⟩
  obtain ⟨before₁, rfl, h₁⟩ := Call.exists_of_append_eq (by simp [opening, Call.concludes]) hc h
  -- The call ends a batch of the rounds, or it is the last one.
  have hrounds : ∀ later', cs = before₁ ++ c :: later' → later = later' ++ closing →
      ∃ past d rest u₀ v later', ds ++ [.last] = past ++ d :: rest ∧ app.Rounds (app.begun w) past u₀ ∧
        u₀.running = true ∧ app.Ends w (.opened w.broker) u₀ d v (opening ++ before₁) c later' ∧
        later = later' ++ closing := by
    intro later' heq hlater
    obtain ⟨past, d, rest, u₀, v, hds, hpast, hrunning, hends⟩ :=
      ends_of_sequence hs _ hkeeps hcs hhonest.after.of_append heq hc
    exact ⟨past, d, rest, u₀, v, later', hds, hpast, hrunning, hends.of_later rfl, hlater⟩
  have hlast : ∀ before₂, closing = before₂ ++ c :: later → c ≠ .commit ∧ later = [] := by
    intro before₂ heq
    have hsplit : [.closeConsumer] ++ [.flush Publisher.flushTimeout] = before₂ ++ c :: later := heq
    obtain ⟨-, rfl, rfl⟩ := Call.eq_of_flush (by simp [Call.concludes]) hc hsplit
    exact ⟨by rintro ⟨⟩, rfl⟩
  rcases List.append_eq_append_iff.mp h₁ with ⟨before₂, -, hclosing⟩ | ⟨cs', hcs', hclosing⟩
  · exact .inl (hlast before₂ hclosing)
  · cases cs' with
    | nil => exact .inl (hlast [] hclosing.symm)
    | cons c' later' =>
      obtain ⟨rfl, hlater⟩ := List.cons.inj hclosing
      exact .inr (hrounds later' hcs' hlater)

theorem no_commit_of_processBatch {batch : List Message} {fault : Fault}
    (hs : app.sources.Lead World.OnlyAsks) (h : (app.processBatch batch).run.run u = (.error fault, u')) :
    ∃ cs, u'.calls = u.calls ++ cs ∧ .commit ∉ cs := by
  have hquiet : ∀ {u'' : World}, u.Advances u'' → ∃ cs, u''.calls = u.calls ++ cs ∧ .commit ∉ cs := by
    rintro u'' ⟨cs, hcs, hcalls, -⟩
    exact ⟨cs, hcalls, fun hmem => nomatch hcs _ hmem⟩
  rcases processBatch_cases hs h with ⟨-, hadv⟩ | ⟨v, notes, hmessages, ⟨-, -, rfl⟩ | ⟨-, hok, -⟩⟩
  · exact hquiet hadv
  · obtain ⟨cs, hcalls, hcs⟩ := hquiet ((messages_leads hs _).of_run hmessages)
    refine ⟨cs ++ [.flush Publisher.flushTimeout], ?_, by simpa using hcs⟩
    rw [← List.append_assoc, ← hcalls]
    rfl
  · cases hok

theorem run_of_failed_batch {rest : List Delivery} {fault : Fault} (hds : ds ++ [.last] = past ++ d :: rest)
    (hne : d.batch ≠ []) (hreaches : app.Reaches w past d [] u)
    (hfail : (app.processBatch d.batch).run.run u = (.error fault, u')) : ∃ notes,
    (app.run ds).run.run w = (.error fault, u'.after closing notes) := by
  obtain ⟨u₀, hpast, hrunning, u₁, hconsume, hnone⟩ := hreaches
  obtain rfl : u₁ = u := congrArg Prod.snd hnone
  have hround : (app.round d).run.run u₀ = (.error fault, u') := by
    have hempty : d.batch.isEmpty = false := by simpa using hne
    have hbind : (app.processBatch d.batch >>= fun _ => turnWindow).run.run u₁ = (.error fault, u') := by
      rw [Act.run_bind, hfail]
    rw [round, Act.run_bind, hconsume]
    dsimp only
    rw [hempty]
    exact hbind
  obtain ⟨notes, hrun⟩ : ∃ notes, (app.run ds).run.run w = (_, _) := run_run ds w
  rw [hds, hpast.run_sequence, run_sequence_cons _ hrunning, Act.run_bind, hround] at hrun
  exact ⟨notes, hrun⟩

/-- **Whole runs.** What is committed was handled and delivered: at each commit every message handed over so
far is accounted for, and every record produced so far was acknowledged. After a flush that leaves something
undelivered, or a batch that fails, nothing is committed any more. All that is asked of the sources is that
they only ask the database, and of the broker that its flushes are honest. A signal may come with any
delivery and while pages are looked for; one before the first round is a run that begins stopped. -/
theorem commits_delivered (hs : app.sources.Lead World.OnlyAsks) (ds : List Delivery) (w : World)
    (hhonest : (Ledger.opened w.broker).Honest (app.trace ds w)) :
    (∀ before later, app.trace ds w = before ++ .commit :: later →
      ((Ledger.opened w.broker).after before).Delivered ∧
      ((Ledger.opened w.broker).after before).acknowledged.Perm
        (w.broker.queue ++ before.filterMap Call.produced?) ∧
      ∃ past d rest u, ds ++ [.last] = past ++ d :: rest ∧ app.Reaches w past d d.batch u ∧
        w.calls ++ before = u.calls ++ [.flush Publisher.flushTimeout] ∧
        app.AllAccounted w (past ++ [d]) (w.calls ++ before)) ∧
    (∀ before timeout later, app.trace ds w = before ++ .flush timeout :: later →
      ¬((Ledger.opened w.broker).after (before ++ [.flush timeout])).Delivered → .commit ∉ later) ∧
    ∀ past d rest u fault u', ds ++ [.last] = past ++ d :: rest → d.batch ≠ [] →
      app.Reaches w past d [] u → (app.processBatch d.batch).run.run u = (.error fault, u') →
        ((app.run ds).run.run w).1 = .error fault ∧
          .commit ∉ ((app.run ds).run.run w).2.calls.drop u.calls.length := by
  refine ⟨?_, ?_, ?_⟩
  · intro before later htrace
    rcases ends_of_run hs hhonest htrace rfl with ⟨hlast, -⟩ | ⟨past, d, rest, u₀, v, later', hends⟩
    · exact absurd rfl hlast
    obtain ⟨hds, hpast, hrunning, hends, -⟩ := hends
    obtain ⟨hdelivered, hcalls⟩ := hends.commit rfl
    have hreaches : app.Reaches w past d d.batch v := ⟨u₀, hpast, hrunning, hends.handled⟩
    refine ⟨hdelivered, hdelivered.acknowledged_perm, past, d, rest, v, hds, hreaches, hcalls, ?_⟩
    rw [hcalls]
    exact (hreaches.allAccounted hs).mono (List.prefix_append _ _)
  · intro before timeout later htrace hnot
    rcases ends_of_run hs hhonest htrace rfl with ⟨-, rfl⟩ | ⟨past, d, rest, u₀, v, later', hends⟩
    · exact List.not_mem_nil
    obtain ⟨-, -, -, hends, rfl⟩ := hends
    rcases hends.flush timeout rfl with hdelivered | rfl
    · exact absurd hdelivered hnot
    · simp [closing]
  · intro past d rest u fault u' hds hne hreaches hfail
    obtain ⟨notes, hrun⟩ := run_of_failed_batch hds hne hreaches hfail
    obtain ⟨cs, hcalls, hcs⟩ := no_commit_of_processBatch hs hfail
    rw [hrun]
    refine ⟨rfl, ?_⟩
    change .commit ∉ (u'.calls ++ closing).drop u.calls.length
    rw [hcalls, List.append_assoc, List.drop_left, List.mem_append, not_or]
    exact ⟨hcs, by simp [closing]⟩

theorem eq_of_commit_at {cs : List Call} {k : ℕ} (h : cs[k]?.any (fun c => c matches .commit) = true) :
    cs = cs.take k ++ .commit :: cs.drop (k + 1) := by
  obtain ⟨c, hk, hc⟩ := (Option.any_eq_true _ _).mp h
  obtain ⟨hlt, rfl⟩ := List.getElem?_eq_some_iff.mp hk
  have hcommit : cs[k] = .commit := by
    revert hc
    cases cs[k] with
    | commit => exact fun _ => rfl
    | _ => exact nofun
  rw [← hcommit, ← List.drop_eq_getElem_cons hlt, List.take_append_drop]

/-- A batch whose event is acknowledged, and one whose dead letter is rejected. -/
theorem commits_delivered_label :
    let store := UsageStore.empty.add 1 [⟨⟨"Q1", by decide⟩, .bare .all⟩]
    let titles := TitleIndex.empty.insert ⟨1, 0, "Cat", true⟩
    let app := inMemory plainSettings ⟨"enwiki", "en", true⟩ store titles 985
    let w := { calmWorld with
      broker := ⟨0, [], [], [], [(.success, 0), (⟨.rejected "expired", []⟩, 0)]⟩ }
    let ds := [.messages none [some (messageOf labelText)],
      .messages none [some (messageOf "\x7b\"id\":7\x7d")]]
    (Ledger.opened w.broker).Honest (app.trace ds w) ∧
      ∃ before later, app.trace ds w = before ++ .commit :: later ∧
        ((Ledger.opened w.broker).after before).Delivered ∧
        ((Ledger.opened w.broker).after before).acknowledged.length = 1 := by
  intro store titles app w ds
  have hhonest : (Ledger.opened w.broker).Honest (app.trace ds w) := by decide +kernel
  have hcommit : (app.trace ds w)[6]?.any (fun c => c matches .commit) = true := by decide +kernel
  have hcount : (w.broker.queue ++ ((app.trace ds w).take 6).filterMap Call.produced?).length = 1 := by
    decide +kernel
  have hsplit := eq_of_commit_at hcommit
  obtain ⟨hcommits, -, -⟩ := commits_delivered
    (Sources.lead_ofMemory store titles : app.sources.Lead World.OnlyAsks) ds w hhonest
  obtain ⟨hdelivered, hacknowledged, -⟩ := hcommits _ _ hsplit
  rw [← hacknowledged.length_eq] at hcount
  exact ⟨hhonest, _, _, hsplit, hdelivered, hcount⟩

end App

end PageInvalidation.Dispatch
