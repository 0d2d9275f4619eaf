import PageInvalidation.Proofs.Database.Effects
import PageInvalidation.Proofs.Dispatch.Message

/-! # What handling messages does to the world

Between two flushes the world only advances: calls are made, and the broker and the number of rejections
follow the ledger of these calls (`World.Advances`). Whoever finds pages only asks the database. -/

namespace PageInvalidation.Dispatch

/-! ### Asking the database -/

/-- Calls are made on the database only, its answers are used up, notes are written, and a signal may
come. -/
def World.OnlyAsks (w w' : World) : Prop :=
  ∃ (notes : List Note) (answers : List Database.Reply) (running : Bool) (cs : List Database.Call),
    w' = { w with
      notes := notes
      answers := answers
      running := running
      calls := w.calls ++ cs.map Call.database }

instance : IsPreorder World World.OnlyAsks where
  refl w := ⟨w.notes, w.answers, w.running, [], by simp⟩
  trans _ _ _ := by
    rintro ⟨notes, answers, running, cs, rfl⟩ ⟨notes', answers', running', cs', rfl⟩
    exact ⟨notes', answers', running', cs ++ cs', by simp⟩

theorem World.note_onlyAsks (note : Note) (w : World) : w.OnlyAsks (Journalled.record note w) :=
  ⟨w.notes ++ [note], w.answers, w.running, [], by simp [Journalled.record]⟩

theorem talks_onlyAsks : Database.Talks World.OnlyAsks where
  note := World.note_onlyAsks
  call c w := ⟨w.notes, _, w.running, [c], rfl⟩

theorem App.lead_databaseSources : App.databaseSources.Lead World.OnlyAsks where
  pagesUsing := Database.Usages.pagesUsing_leads talks_onlyAsks
  pageById := Database.Titles.pageById_leads talks_onlyAsks
  pageByText := Database.Titles.pageByText_leads talks_onlyAsks Title.mainNamespace

/-! ### Advancing -/

/-- Whether a call ends the handling of a batch. -/
def Call.concludes : Call → Bool
  | .flush _ => true
  | .commit => true
  | _ => false

/-- Calls are made that end no batch; the broker and the rejections follow their ledger. -/
def World.Advances (w w' : World) : Prop :=
  ∃ cs, (∀ c ∈ cs, c.concludes = false) ∧ w'.calls = w.calls ++ cs ∧
    w'.broker = ((Ledger.opened w.broker).after cs).broker ∧
    w'.rejections = w.rejections + ((Ledger.opened w.broker).after cs).rejected.length

namespace World

variable {w w' : World}

instance : IsPreorder World Advances where
  refl w := ⟨[], by simp, by simp, rfl, rfl⟩
  trans u v w := by
    rintro ⟨cs, hcs, hcalls, hbroker, hrejections⟩ ⟨cs', hcs', hcalls', hbroker', hrejections'⟩
    rw [hbroker] at hbroker' hrejections'
    refine ⟨cs ++ cs', ?_, ?_, ?_, ?_⟩
    · exact List.forall_mem_append.mpr ⟨hcs, hcs'⟩
    · rw [hcalls', hcalls, List.append_assoc]
    · rw [hbroker', Ledger.after_append, Ledger.after_eq_continuing ((Ledger.opened _).after cs)]
      rfl
    · rw [hrejections', hrejections, Ledger.rejected_after_append, List.length_append, Nat.add_assoc]

theorem Advances.of_same (hcalls : w'.calls = w.calls) (hbroker : w'.broker = w.broker)
    (hrejections : w'.rejections = w.rejections) : w.Advances w' :=
  ⟨[], by simp, by simp [hcalls], hbroker, hrejections⟩

theorem advances_after {cs : List Call} (h : ∀ c ∈ cs, c.concludes = false) (w : World) (notes : List Note) :
    w.Advances (w.after cs notes) := ⟨cs, h, rfl, rfl, rfl⟩

theorem step_database (l : Ledger) (cs : List Database.Call) : l.after (cs.map Call.database) = l := by
  induction cs with
  | nil => rfl
  | cons c cs ih => exact ih

theorem OnlyAsks.advances (h : w.OnlyAsks w') : w.Advances w' := by
  obtain ⟨notes, answers, running, cs, rfl⟩ := h
  refine ⟨cs.map Call.database, ?_, rfl, ?_, ?_⟩
  · intro c hc
    obtain ⟨c', -, rfl⟩ := List.mem_map.mp hc
    rfl
  · rw [step_database]
    rfl
  · rw [step_database]
    rfl

theorem note_advances (note : Note) (w : World) : w.Advances (Journalled.record note w) :=
  .of_same rfl rfl rfl

theorem Advances.calls_kept (h : w.Advances w') : w.calls <+: w'.calls := by
  obtain ⟨cs, -, hcalls, -⟩ := h
  exact ⟨cs, hcalls.symm⟩

theorem time_leads : World.time.Leads Advances :=
  (Act.leads_observe fun _ => .of_same rfl rfl rfl).bind fun _ => Act.leads_ofExcept _ _

theorem stopwatchTime_leads : World.stopwatchTime.Leads Advances :=
  (Act.leads_observe fun _ => .of_same rfl rfl rfl).bind fun _ => Act.leads_ofExcept _ _

theorem call_leads {c : Call} (hc : c.concludes = false) (h : ∀ l : Ledger, l.step c = l) :
    (World.call c).Leads Advances := fun w => by
  rw [World.run_call h]
  exact advances_after (by simpa using hc) w _

end World

theorem Publisher.publish_leads (r : Record) : (Publisher.publish r).Leads World.Advances := by
  intro w
  cases h : (Publisher.nextOffer w.broker).1 with
  | none =>
    obtain ⟨notes, hrun⟩ := Publisher.run_publish_of_taken (r := r) h
    rw [hrun]
    exact World.advances_after (by simp [Call.concludes]) w notes
  | some reason =>
    rw [Publisher.run_publish_of_refused h]
    exact World.advances_after (by simp [Call.concludes]) w _

namespace App

variable {app : App}

theorem measure_leads {α : Type} (f : Measures → Measures × Except Fault α) :
    (measure f).Leads World.Advances :=
  (Act.leads_observe fun _ => .of_same rfl rfl rfl).bind fun _ => Act.leads_ofExcept _ _

theorem answer_leads (hs : app.sources.Lead World.OnlyAsks) (m : Message) :
    (app.answer m).Leads World.OnlyAsks :=
  (Act.leads_ofExcept _ _).bind fun change =>
    (Act.leads_observe fun w => refl_of World.OnlyAsks w).bind fun now =>
      Handler.handle_leads World.note_onlyAsks hs change now

theorem publishEvent_leads (event : Wire.EventMessage) : (app.publishEvent event).Leads World.Advances :=
  (Act.leads_ofExcept _ _).bind fun _ => (Act.leads_ofExcept _ _).bind fun _ => Publisher.publish_leads _

theorem finish_leads (latency : Number) : ∀ event : Option Wire.EventMessage,
    (app.finish latency event).Leads World.Advances
  | none => measure_leads _
  | some event => (publishEvent_leads event).bind fun _ => measure_leads _

theorem conclude_leads (started : Number) (event : Option Wire.EventMessage) :
    (app.conclude started event).Leads World.Advances :=
  World.stopwatchTime_leads.bind fun _ => (Act.leads_ofExcept _ _).bind fun latency =>
    finish_leads latency event

theorem processMessage_leads (hs : app.sources.Lead World.OnlyAsks) (m : Message) :
    (app.processMessage m).Leads World.Advances := by
  rw [processMessage_eq]
  refine World.stopwatchTime_leads.bind fun started => ?_
  refine ((answer_leads hs m).mono fun _ _ => World.OnlyAsks.advances).bind fun event => ?_
  exact conclude_leads started event

theorem publishDeadLetter_leads (m : Message) (fault : Fault) :
    (app.publishDeadLetter m fault).Leads World.Advances := by
  refine (Act.leads_ofExcept _ _).bind fun text =>
    (Act.leads_update (World.note_advances _)).bind fun _ => World.time_leads.bind fun now => ?_
  refine (Act.leads_ofExcept _ _).bind fun failedAt => (Act.leads_ofExcept _ _).bind fun id => ?_
  exact (Publisher.publish_leads _).bind fun _ => measure_leads _

theorem dispatchMessage_leads (hs : app.sources.Lead World.OnlyAsks) (m : Message) :
    (app.dispatchMessage m).Leads World.Advances :=
  (processMessage_leads hs m).tryCatch fun fault => publishDeadLetter_leads m fault

theorem messages_leads (hs : app.sources.Lead World.OnlyAsks) (ms : List Message) :
    (ms.forM app.dispatchMessage).Leads World.Advances :=
  Act.leads_forM fun m _ => dispatchMessage_leads hs m

/-! ### What a handled message has led to -/

/-- No page was affected by the change of a message, or its event or a dead letter for it was produced
between two states, the one in which it was handed over and the one after it. -/
inductive Accounted (app : App) (m : Message) (u u' : World) : Prop
  | skipped {change : Wire.ChangeMessage} {c : EntityChange} (hchange : changeOf m = .ok change)
    (hc : change.toChange = .ok c) (hnone : ((app.finder.affectedBy app.sources c).run.run
      { u with stopwatch := u.stopwatch.ahead 1 }).1 = .ok [])
  | event {e : Wire.EventMessage} {key : List Char}
    (he : ((app.answer m).run.run { u with stopwatch := u.stopwatch.ahead 1 }).1 = .ok (some e))
    (hkey : eventKey e = .ok key) (hproduced : .produce (app.eventRecord e key) ∈ u'.calls.drop u.calls.length)
  | deadLetter (fault : Fault) (failedAt : Int) (id : List Char)
    (hproduced : .produce (app.deadLetterRecord m fault failedAt id) ∈ u'.calls.drop u.calls.length)

end App

/-- A call made on the way from one state to another is made on a longer way as well. -/
theorem World.mem_drop_of_prefix {u v v' u' : World} {c : Call} (h : u.calls <+: v.calls)
    (hc : c ∈ v'.calls.drop v.calls.length) (h' : v'.calls <+: u'.calls) :
    c ∈ u'.calls.drop u.calls.length :=
  (List.drop_sublist_drop_left _ h.length_le).subset ((h'.drop _).subset hc)

theorem World.eq_of_run_stopwatchTime {u u' : World} {t : Number}
    (h : World.stopwatchTime.run.run u = (.ok t, u')) : u' = { u with stopwatch := u.stopwatch.ahead 1 } := by
  rw [World.run_stopwatchTime_eq] at h
  exact (congrArg Prod.snd h).symm

theorem Publisher.produced_of_publish {r : Record} {u u' : World}
    (h : (Publisher.publish r).run.run u = (.ok (), u')) : .produce r ∈ u'.calls.drop u.calls.length := by
  cases htaken : (Publisher.nextOffer u.broker).1 with
  | none =>
    obtain ⟨notes, hrun⟩ := Publisher.run_publish_of_taken (r := r) htaken
    cases hrun.symm.trans h
    simp [World.after]
  | some reason =>
    rw [Publisher.run_publish_of_refused htaken] at h
    cases h

namespace App

variable {app : App} {m : Message} {u u' : World}

theorem affectsNone_of_answer (h : (app.answer m).run.run u = (.ok none, u')) : ∃ change c,
    changeOf m = .ok change ∧ change.toChange = .ok c ∧
      ((app.finder.affectedBy app.sources c).run.run u).1 = .ok [] := by
  cases hchange : changeOf m with
  | error fault =>
    rw [run_answer_of_error hchange] at h
    cases h
  | ok change =>
    rw [run_answer_of_ok hchange] at h
    obtain ⟨c, s, hparse, hrest⟩ := Act.run_bind_eq_ok.mp h
    obtain ⟨hc, rfl⟩ := Act.run_ofExcept_eq_ok.mp hparse
    obtain ⟨pages, s', hpages, hend⟩ := Act.run_bind_eq_ok.mp hrest
    refine ⟨change, c, rfl, hc, ?_⟩
    rw [hpages]
    split at hend
    · rename_i hempty
      rw [List.isEmpty_iff.mp hempty]
    · obtain ⟨aspects, s₁, -, hnote⟩ := Act.run_bind_eq_ok.mp hend
      obtain ⟨_, s₂, -, hnone⟩ := Act.run_bind_eq_ok.mp hnote
      cases hnone

theorem produced_of_conclude {started : Number} {e : Wire.EventMessage}
    (h : (app.conclude started (some e)).run.run u = (.ok (), u')) : ∃ key, eventKey e = .ok key ∧
      .produce (app.eventRecord e key) ∈ u'.calls.drop u.calls.length := by
  obtain ⟨ended, s₁, hended, hrest⟩ := Act.run_bind_eq_ok.mp h
  obtain ⟨latency, s₂, hlatency, hfinish⟩ := Act.run_bind_eq_ok.mp hrest
  obtain ⟨-, rfl⟩ := Act.run_ofExcept_eq_ok.mp hlatency
  obtain ⟨_, s₃, hpublish, hmeasure⟩ := Act.run_bind_eq_ok.mp hfinish
  have hbefore := World.stopwatchTime_leads.of_run hended
  have hafter := (measure_leads _).of_run hmeasure
  rw [run_publishEvent] at hpublish
  cases hkey : eventKey e with
  | error fault =>
    rw [hkey] at hpublish
    cases hpublish
  | ok key =>
    rw [hkey] at hpublish
    exact ⟨key, rfl, World.mem_drop_of_prefix hbefore.calls_kept (Publisher.produced_of_publish hpublish)
      hafter.calls_kept⟩

theorem produced_of_publishDeadLetter {fault : Fault}
    (h : (app.publishDeadLetter m fault).run.run u = (.ok (), u')) : ∃ failedAt id,
    .produce (app.deadLetterRecord m fault failedAt id) ∈ u'.calls.drop u.calls.length := by
  obtain ⟨text, s₁, htext, h₁⟩ := Act.run_bind_eq_ok.mp h
  obtain ⟨_, s₂, hnote, h₂⟩ := Act.run_bind_eq_ok.mp h₁
  obtain ⟨t, s₃, htime, h₃⟩ := Act.run_bind_eq_ok.mp h₂
  obtain ⟨failedAt, s₄, hmillis, h₄⟩ := Act.run_bind_eq_ok.mp h₃
  obtain ⟨id, s₅, hid, h₅⟩ := Act.run_bind_eq_ok.mp h₄
  obtain ⟨_, s₆, hpublish, h₆⟩ := Act.run_bind_eq_ok.mp h₅
  have hbefore : u.Advances s₅ := by
    have htext := (Act.leads_ofExcept (R := World.Advances) _ _).of_run htext
    have hnote := (Act.leads_update (World.note_advances _)).of_run hnote
    have htime := World.time_leads.of_run htime
    have hmillis := (Act.leads_ofExcept (R := World.Advances) _ _).of_run hmillis
    have hid := (Act.leads_ofExcept (R := World.Advances) _ _).of_run hid
    exact trans_of World.Advances htext (trans_of World.Advances hnote (trans_of World.Advances htime
      (trans_of World.Advances hmillis hid)))
  have hafter : s₆.Advances u' := (measure_leads _).of_run h₆
  exact ⟨failedAt, id, World.mem_drop_of_prefix hbefore.calls_kept
    (Publisher.produced_of_publish hpublish) hafter.calls_kept⟩

/-- **A message that is handled is accounted for.** -/
theorem accounted_of_dispatch (hs : app.sources.Lead World.OnlyAsks)
    (h : (app.dispatchMessage m).run.run u = (.ok (), u')) : app.Accounted m u u' := by
  rcases Act.run_tryCatch_eq_ok h with hprocess | ⟨fault, s, hprocess, hletter⟩
  · rw [processMessage_eq] at hprocess
    obtain ⟨started, s₁, hstarted, hrest⟩ := Act.run_bind_eq_ok.mp hprocess
    obtain ⟨event, s₂, hanswer, hconclude⟩ := Act.run_bind_eq_ok.mp hrest
    have hbefore : u.Advances s₂ := trans_of World.Advances (World.stopwatchTime_leads.of_run hstarted)
      ((answer_leads hs m).of_run hanswer).advances
    rw [World.eq_of_run_stopwatchTime hstarted] at hanswer
    cases event with
    | none =>
      obtain ⟨change, c, hchange, hc, hnone⟩ := affectsNone_of_answer hanswer
      exact .skipped hchange hc hnone
    | some e =>
      obtain ⟨key, hkey, hproduced⟩ := produced_of_conclude hconclude
      refine .event (congrArg Prod.fst hanswer) hkey ?_
      exact World.mem_drop_of_prefix hbefore.calls_kept hproduced (List.prefix_refl _)
  · have hbefore := (processMessage_leads hs m).of_run hprocess
    obtain ⟨failedAt, id, hproduced⟩ := produced_of_publishDeadLetter hletter
    exact .deadLetter fault failedAt id
      (World.mem_drop_of_prefix hbefore.calls_kept hproduced (List.prefix_refl _))

end App

end PageInvalidation.Dispatch
