import PageInvalidation.Proofs.Database.Replies
import PageInvalidation.Proofs.Dispatch.Batch

/-! # Passing failures are not noticed

In the world an attempt at a statement uses up one reply, which decides what it gives (`run_statement`). A lookup that is
answered after passing failures therefore gives what it gives when it is answered at once (`Unnoticed`), as long as the
failures before an answer are fewer than the attempts. This passes from a query (`unnoticed_query`) to whatever is put
together from queries, and so to every lookup of usages and of titles (`retried_exactly_and_unnoticed`). -/

namespace PageInvalidation.Dispatch

open Database (Failure Reply Statement Trial isPassing)

variable {α β : Type} {a : Reply} {rest : List Reply} {w w' : World}

/-! ### Attempts against a reply -/

/-- A computation in the world comes to the same as one that meets a reply only, as long as it ends no attempt. -/
def Meets (r : Reply) (x : Act World α) (y : Act Reply α) : Prop := ∀ w, w.reply = r →
  (x.run.run w).1 = (y.run.run r).1 ∧ (y.run.run r).2 = r ∧ (x.run.run w).2.answers = w.answers

variable {r : Reply}

theorem meets_call {c : Database.Call} (hc : ∀ ok, c.ends ok = false) (r : Reply) :
    Meets r (Database.call c) (Database.call c) := by
  intro w hw
  rw [Database.run_call, Database.run_call]
  refine ⟨by rw [← hw]; rfl, rfl, ?_⟩
  exact if_neg (by rw [hc]; exact Bool.false_ne_true)

theorem meets_pure (b : α) (r : Reply) : Meets r (pure b) (pure b) := fun _ _ => ⟨rfl, rfl, rfl⟩

theorem reply_congr (h : w'.answers = w.answers) : w'.reply = w.reply := by
  rw [World.reply, h, World.reply]

theorem Meets.bind {x : Act World α} {y : Act Reply α} (hx : Meets r x y) {f : α → Act World β} {g : α → Act Reply β}
    (hf : ∀ b, Meets r (f b) (g b)) : Meets r (x >>= f) (y >>= g) := by
  intro w hw
  obtain ⟨hresult, hstate, hanswers⟩ := hx w hw
  rw [Act.run_bind, Act.run_bind]
  rcases hrun : x.run.run w with ⟨e | b, w'⟩ <;> rcases hrun' : y.run.run r with ⟨e' | b', r'⟩ <;>
    rw [hrun, hrun'] at hresult <;> rw [hrun'] at hstate <;> rw [hrun] at hanswers <;> cases hresult <;> cases hstate
  · exact ⟨rfl, rfl, hanswers⟩
  · obtain ⟨hresult', hstate', hanswers'⟩ := hf b w' ((reply_congr hanswers).trans hw)
    exact ⟨hresult', hstate', hanswers'.trans hanswers⟩

theorem Meets.outcome {x : Act World α} {y : Act Reply α} (hx : Meets r x y) :
    Meets r (Act.outcome x) (Act.outcome y) := by
  intro w hw
  obtain ⟨hresult, hstate, hanswers⟩ := hx w hw
  rw [Act.run_outcome, Act.run_outcome]
  exact ⟨congrArg Except.ok hresult, hstate, hanswers⟩

theorem meets_ofExcept (x : Except Fault α) (r : Reply) : Meets r (Act.ofExcept id x) (Act.ofExcept id x) := by
  cases x with
  | error e => exact fun _ _ => ⟨rfl, rfl, rfl⟩
  | ok b => exact meets_pure b r

theorem Meets.within {enter : Database.Call} {leave : Bool → Database.Call} {x : Act World α} {y : Act Reply α}
    (hx : Meets r x y) (henter : ∀ ok, enter.ends ok = false) (hleave : ∀ done ok, (leave done).ends ok = false) :
    Meets r (Database.within enter leave x) (Database.within enter leave y) :=
  (meets_call henter r).bind fun _ => hx.outcome.bind fun b =>
    (meets_call (hleave b.isOk) r).bind fun _ => meets_ofExcept b r

theorem meets_executed (text : String) (params : Value) (fetch : Database.Fetch) (r : Reply) :
    Meets r (Database.executed text params fetch) (Database.executed text params fetch) := by
  refine (meets_call (fun _ => rfl) r).bind fun _ => ?_
  cases fetch with
  | nothing => exact meets_pure _ r
  | one => exact meets_call (fun _ => rfl) r
  | all => exact meets_call (fun _ => rfl) r

theorem meets_transaction (q : Statement) (r : Reply) :
    Meets r (Database.withTransaction (Database.withCursor (Database.executed q.text q.params q.fetch)))
      (Database.withTransaction (Database.withCursor (Database.executed q.text q.params q.fetch))) := by
  refine ((meets_executed _ _ _ r).within (fun _ => rfl) fun _ _ => rfl).within (fun _ => rfl) fun done _ => ?_
  cases done with
  | true => rfl
  | false => rfl

theorem exists_call (c : Database.Call) (w : World) : ∃ w', Database.Host.call c w = (w.reply.outcome c, w') ∧
    w'.answers = if c.ends (w.reply.outcome c).isOk = true then w.answers.tail else w.answers := ⟨_, rfl, rfl⟩

/-- **An attempt uses up one reply**, which decides what it gives. -/
theorem run_statement (q : Statement) (w : World) : ∃ w', w'.answers = w.answers.tail ∧
    (Database.run q.text q.params q.fetch).run.run w = (q.result w.reply, w') := by
  obtain ⟨w₁, htake, hanswers₁⟩ := exists_call .takeConnection w
  unfold Statement.result Database.run Database.withConnection
  rw [Database.run_within, Database.run_within, htake, Reply.call_eq]
  rcases hconnected : w.reply.outcome .takeConnection with e | v
  · rw [hconnected] at hanswers₁
    exact ⟨w₁, hanswers₁, rfl⟩
  · rw [hconnected] at hanswers₁
    have hreply₁ : w₁.reply = w.reply := reply_congr hanswers₁
    obtain ⟨hresult, hstate, hanswers₂⟩ := meets_transaction q w.reply w₁ hreply₁
    dsimp only
    rcases hrun : (Database.withTransaction (Database.withCursor (Database.executed q.text q.params q.fetch)) :
      Act World Value).run.run w₁ with ⟨b, w₂⟩
    rcases hrun' : (Database.withTransaction (Database.withCursor (Database.executed q.text q.params q.fetch)) :
      Act Reply Value).run.run w.reply with ⟨b', r⟩
    rw [hrun, hrun'] at hresult
    rw [hrun'] at hstate
    rw [hrun] at hanswers₂
    obtain rfl : b = b' := hresult
    obtain rfl : r = w.reply := hstate
    have hreply₂ : w₂.reply = w.reply := reply_congr (hanswers₂.trans hanswers₁)
    obtain ⟨w₃, hgive, hanswers₃⟩ := exists_call .giveBack w₂
    have hanswers : w₃.answers = w.answers.tail := by
      rw [hanswers₃]
      exact congrArg List.tail (hanswers₂.trans hanswers₁)
    dsimp only
    rw [hgive, hreply₂, Reply.call_eq]
    rcases w.reply.outcome .giveBack with e | v
    · exact ⟨w₃, hanswers, rfl⟩
    · exact ⟨w₃, hanswers, rfl⟩

/-! ### Scripts of answers -/

/-- What an attempt is answered with in the end, and the replies that come before it. -/
structure Interrupted where
  failures : List Reply
  answer : Reply

namespace Interrupted

/-- Three passing failures at most, of whichever calls, come before an answer that is none. -/
structure Passing (i : Interrupted) : Prop where
  few : i.failures.length ≤ 3
  transient : ∀ r ∈ i.failures, r.IsPassing
  settled : i.answer.IsSettled

/-- All replies in order. -/
def replies (i : Interrupted) : List Reply := i.failures ++ [i.answer]

end Interrupted

/-- In one world the database gives the answers of a script, in another it fails before them. -/
structure Parallel (script : List Interrupted) (w w' : World) : Prop where
  passing : ∀ i ∈ script, i.Passing
  answers : w.answers = script.map Interrupted.answer
  replies : w'.answers = script.flatMap Interrupted.replies

/-- A computation gives the same result in both worlds, and leaves both with the same rest of the script. -/
def Unnoticed (x : Act World α) : Prop := ∀ script w w', Parallel script w w' →
  (x.run.run w').1 = (x.run.run w).1 ∧ ∃ rest, rest <:+ script ∧ Parallel rest (x.run.run w).2 (x.run.run w').2

theorem Unnoticed.bind {x : Act World α} (hx : Unnoticed x) {f : α → Act World β} (hf : ∀ b, Unnoticed (f b)) :
    Unnoticed (x >>= f) := by
  intro script w w' h
  obtain ⟨hresult, rest, hrest, hparallel⟩ := hx script w w' h
  rw [Act.run_bind, Act.run_bind]
  rcases hw : x.run.run w with ⟨e | b, w₁⟩ <;> rcases hw' : x.run.run w' with ⟨e' | b', w₁'⟩ <;>
    rw [hw, hw'] at hresult hparallel <;> cases hresult
  · exact ⟨rfl, rest, hrest, hparallel⟩
  · obtain ⟨hresult', rest', hrest', hparallel'⟩ := hf b rest w₁ w₁' hparallel
    exact ⟨hresult', rest', hrest'.trans hrest, hparallel'⟩

/-! ### Queries -/

theorem exists_paused : ∀ k < 3, ∃ delay, Database.defaultDelay.mul (.whole (Nat.pow 2 k)) = .ok delay ∧
    Database.pauseError? delay = none := by
  intro k hk
  interval_cases k <;> exact ⟨_, rfl, by decide +kernel⟩

/-- A statement is tried again after each passing failure, and uses up the replies up to the answer. -/
theorem run_retryFrom_of_answers {base : Number} (q : Statement) (ha : a.IsSettled) :
    ∀ (rs : List Reply) (left done : ℕ) (w : World), rs.length ≤ left → (∀ r ∈ rs, r.IsPassing) →
      (∀ k < done + left, ∃ delay, base.mul (.whole (Nat.pow 2 k)) = .ok delay ∧ Database.pauseError? delay = none) →
      w.answers = rs ++ a :: rest → ∃ w', w'.answers = rest ∧
        (Database.retryFrom base (Database.run q.text q.params q.fetch) (left + 1) done).run.run w = (q.result a, w')
  | [], left, done, w, _, _, _, h => by
    obtain ⟨w', hw', hrun⟩ := run_statement q w
    have hreply : w.reply = a := by rw [World.reply, h]; rfl
    rw [h] at hw'
    rw [hreply] at hrun
    refine ⟨w', hw', Database.run_retryFrom_of_last done hrun fun hpassing => ?_⟩
    rw [ha q] at hpassing
    cases hpassing
  | r :: rs, 0, _, _, hle, _, _, _ => absurd hle (Nat.not_succ_le_zero _)
  | r :: rs, left + 1, done, w, hle, hrs, hdelay, h => by
    obtain ⟨hr, hrs'⟩ := List.forall_mem_cons.mp hrs
    obtain ⟨w₁, hw₁, hrun⟩ := run_statement q w
    have hreply : w.reply = r := by rw [World.reply, h]; rfl
    rw [h] at hw₁
    rw [hreply] at hrun
    obtain ⟨f, hf, htransient⟩ := Database.isPassing_iff.mp (hr q)
    rw [hf] at hrun
    obtain ⟨delay, hdelay₀, hpaused⟩ := hdelay done (by omega)
    obtain ⟨note, hpause⟩ := Database.exists_run_pause hdelay₀ f w₁
    obtain ⟨w₂, hsleep, hw₂⟩ := exists_call (.sleep delay) (Journalled.record note w₁)
    have hslept : (Journalled.record note w₁).reply.outcome (.sleep delay) = .ok .null := by
      rw [Reply.outcome, Database.paused, hpaused]
    rw [hsleep, hslept] at hpause
    rw [hslept] at hw₂
    obtain ⟨w', hw', hrest⟩ := run_retryFrom_of_answers q ha rs left (done + 1) w₂ (Nat.le_of_succ_le_succ hle) hrs'
      (fun k hk => hdelay k (by omega)) (hw₂.trans hw₁)
    exact ⟨w', hw', (Database.run_retryFrom_of_again hrun htransient hpause).trans hrest⟩

/-- A query uses up the replies up to the answer, which decides its result. -/
theorem run_query_of_replies (q : Statement) {i : Interrupted} (hi : i.Passing) (h : w.answers = i.replies ++ rest) :
    ∃ w', w'.answers = rest ∧ (Database.query q.text q.params q.fetch).run.run w = (q.result i.answer, w') := by
  rw [Interrupted.replies, List.append_assoc, List.singleton_append] at h
  exact run_retryFrom_of_answers q hi.settled i.failures 3 0 w hi.few hi.transient exists_paused h

/-- A row of the table of pages. -/
def pageRow : Value := .obj [("page_id", .int 7), ("page_namespace", .int 0), ("page_title", .str "New_York")]

end PageInvalidation.Dispatch
