import Mathlib.Tactic.IntervalCases
import PageInvalidation.Proofs.Database.Retry
import PageInvalidation.Proofs.Database.Session

/-! # Attempts and exchanges

Which calls are made on a database, and which of them succeed, whatever the database does (`Watched`). What one call
opens another closes (`Fits.within`), so that an attempt at a statement has one of four forms (`Statement.IsAttempt`,
`fits_run`). An exchange consists of attempts, all but the last of them failed ones, with a pause between each two
(`Statement.IsExchange`, `fits_retryFrom`). Its calls are in order (`IsExchange.orderly`): there is never more than one
connection out, it is only used and given back while it is out, no pause is made meanwhile, and at the end it is
back. -/

namespace PageInvalidation.Database

variable {σ α β : Type}

/-! ### Calls that are watched -/

/-- A call that was made, and whether it succeeded. -/
structure Made where
  call : Call
  succeeded : Bool

/-- A host, and the calls that were made on it so far. -/
structure Watched (σ : Type) where
  host : σ
  made : List Made

instance [Host σ] : Host (Watched σ) where
  call c w :=
    let (result, host) := Host.call c w.host
    (result, ⟨host, w.made ++ [⟨c, result.isOk⟩]⟩)

instance [Journalled σ] : Journalled (Watched σ) := ⟨fun note w => { w with host := Journalled.record note w.host }⟩

/-- Whether a computation succeeds, and the calls that it makes, are of a form. -/
def Fits (P : Bool → List Made → Prop) (x : Act (Watched σ) α) : Prop :=
  ∀ w, ∃ t, (x.run.run w).2.made = w.made ++ t ∧ P (x.run.run w).1.isOk t

variable {P Q : Bool → List Made → Prop} {x : Act (Watched σ) α}

theorem Fits.mono (hx : Fits P x) (h : ∀ ok t, P ok t → Q ok t) : Fits Q x := fun w => by
  obtain ⟨t, hmade, ht⟩ := hx w
  exact ⟨t, hmade, h _ t ht⟩

theorem fits_pure (a : α) : Fits (fun ok t => ok = true ∧ t = []) (pure a : Act (Watched σ) α) :=
  fun w => ⟨[], (List.append_nil w.made).symm, rfl, rfl⟩

theorem Fits.bind (hx : Fits P x) {f : α → Act (Watched σ) β} (hf : ∀ a, Fits Q (f a)) :
    Fits (fun ok t => ok = false ∧ P false t ∨ ∃ t₁ t₂, P true t₁ ∧ Q ok t₂ ∧ t = t₁ ++ t₂) (x >>= f) := by
  intro w
  obtain ⟨t, hmade, ht⟩ := hx w
  rw [Act.run_bind]
  rcases hrun : x.run.run w with ⟨e | a, w'⟩
  · rw [hrun] at hmade ht
    exact ⟨t, hmade, .inl ⟨rfl, ht⟩⟩
  · rw [hrun] at hmade ht
    obtain ⟨t', hmade', ht'⟩ := hf a w'
    exact ⟨t ++ t', by rw [hmade', hmade, List.append_assoc], .inr ⟨t, t', ht, ht', rfl⟩⟩

section Calls

variable [Host σ]

theorem made_of_call {c : Call} {w w' : Watched σ} {r : Except Fault Value} (h : Host.call c w = (r, w')) :
    w'.made = w.made ++ [⟨c, r.isOk⟩] := by
  have hmade : (Host.call c w).2.made = w.made ++ [⟨c, (Host.call c w).1.isOk⟩] := rfl
  rwa [h] at hmade

theorem fits_call (c : Call) : Fits (fun ok t => t = [⟨c, ok⟩]) (call c : Act (Watched σ) Value) := by
  intro w
  rw [run_call]
  exact ⟨_, made_of_call rfl, rfl⟩

/-- What is done between two calls: nothing if the first fails, and otherwise the second is made however it ends. -/
inductive Within (enter : Call) (leave : Bool → Call) (P : Bool → List Made → Prop) : Bool → List Made → Prop
  | closed : Within enter leave P false [⟨enter, false⟩]
  | opened {ok : Bool} {t : List Made} (h : P ok t) (left : Bool) :
      Within enter leave P (ok && left) (⟨enter, true⟩ :: t ++ [⟨leave ok, left⟩])

/-- **What one call opens another closes.** -/
theorem Fits.within (hx : Fits P x) (enter : Call) (leave : Bool → Call) :
    Fits (Within enter leave P) (within enter leave x) := by
  intro w
  rw [run_within]
  rcases henter : Host.call enter w with ⟨e | v, w₁⟩
  · exact ⟨_, made_of_call henter, .closed⟩
  · obtain ⟨t, hmade, ht⟩ := hx w₁
    dsimp only
    rcases hrun : x.run.run w₁ with ⟨result, w₂⟩
    rw [hrun] at hmade ht
    have hall : ∀ left, w₂.made ++ [⟨leave result.isOk, left⟩] =
        w.made ++ (⟨enter, true⟩ :: t ++ [⟨leave result.isOk, left⟩]) := fun left => by
      have hmade₁ : w₁.made = w.made ++ [⟨enter, true⟩] := made_of_call henter
      have hmade₂ : w₂.made = w₁.made ++ t := hmade
      rw [hmade₂, hmade₁]
      simp
    dsimp only
    rcases hleave : Host.call (leave result.isOk) w₂ with ⟨e | v, w₃⟩
    · refine ⟨_, (made_of_call hleave).trans (hall false), ?_⟩
      have hopened : Within enter leave P (result.isOk && false) _ := .opened ht false
      rwa [Bool.and_false] at hopened
    · refine ⟨_, (made_of_call hleave).trans (hall true), ?_⟩
      have hopened : Within enter leave P (result.isOk && true) _ := .opened ht true
      rwa [Bool.and_true] at hopened

end Calls

/-! ### Attempts -/

/-- The call that fetches rows, if any are wanted. -/
def Fetch.call? : Fetch → Option Call
  | .nothing => none
  | .one => some .fetchOne
  | .all => some .fetchAll

/-- A statement with its parameters, and the rows that are wanted of it. -/
structure Statement where
  text : String
  params : Value
  fetch : Fetch

namespace Statement

/-- The call that executes a statement. -/
def execution (q : Statement) : Call := .execute (statement q.text) q.params

/-- The execution of a statement, and the fetch of its rows if it succeeds and they are wanted. -/
inductive IsExecution (q : Statement) : Bool → List Made → Prop
  | refused : IsExecution q false [⟨q.execution, false⟩]
  | unfetched (h : q.fetch.call? = none) : IsExecution q true [⟨q.execution, true⟩]
  | fetched {fetch : Call} (h : q.fetch.call? = some fetch) (ok : Bool) :
      IsExecution q ok [⟨q.execution, true⟩, ⟨fetch, ok⟩]

/-- **The forms of an attempt**: no connection can be taken, no transaction begun or no cursor opened, or the statement
is executed. Whatever was opened before a failure is closed again, a transaction by a commit if nothing failed in it
and by a rollback otherwise. -/
inductive IsAttempt (q : Statement) : Bool → List Made → Prop
  | unconnected : IsAttempt q false [⟨.takeConnection, false⟩]
  | unbegun (returned : Bool) :
      IsAttempt q false [⟨.takeConnection, true⟩, ⟨.beginTransaction, false⟩, ⟨.giveBack, returned⟩]
  | unopened (undone returned : Bool) :
      IsAttempt q false [⟨.takeConnection, true⟩, ⟨.beginTransaction, true⟩, ⟨.openCursor, false⟩,
        ⟨.rollback, undone⟩, ⟨.giveBack, returned⟩]
  | complete {ok : Bool} {t : List Made} (h : q.IsExecution ok t) (closed ended returned : Bool) :
      IsAttempt q (ok && closed && ended && returned)
        ([⟨.takeConnection, true⟩, ⟨.beginTransaction, true⟩, ⟨.openCursor, true⟩] ++ t ++
          [⟨.closeCursor, closed⟩, ⟨if ok && closed then .commit else .rollback, ended⟩, ⟨.giveBack, returned⟩])

variable (q : Statement)

theorem fits_executed [Host σ] :
    Fits q.IsExecution (executed q.text q.params q.fetch : Act (Watched σ) Value) := by
  have hfetch : Fits (fun ok t => q.fetch.call? = none ∧ ok = true ∧ t = [] ∨
      ∃ c, q.fetch.call? = some c ∧ t = [⟨c, ok⟩]) (q.fetch.rows : Act (Watched σ) Value) := by
    cases q.fetch with
    | nothing => exact (fits_pure _).mono fun ok t h => .inl ⟨rfl, h⟩
    | one => exact (fits_call .fetchOne).mono fun ok t h => .inr ⟨_, rfl, h⟩
    | all => exact (fits_call .fetchAll).mono fun ok t h => .inr ⟨_, rfl, h⟩
  refine ((fits_call q.execution).bind fun _ => hfetch).mono fun ok t h => ?_
  rcases h with ⟨rfl, rfl⟩ | ⟨_, _, rfl, ⟨hnone, rfl, rfl⟩ | ⟨c, hsome, rfl⟩, rfl⟩
  · exact .refused
  · exact .unfetched hnone
  · exact .fetched hsome ok

/-- **An attempt has one of its forms**, whatever the database does. -/
theorem fits_run [Host σ] : Fits q.IsAttempt (run q.text q.params q.fetch : Act (Watched σ) Value) := by
  have hcursor := q.fits_executed.within (σ := σ) .openCursor fun _ => .closeCursor
  have htransaction := hcursor.within .beginTransaction fun ok => if ok then .commit else .rollback
  have hconnection := htransaction.within .takeConnection fun _ => .giveBack
  refine hconnection.mono fun ok t h => ?_
  rcases h with _ | ⟨_ | ⟨_ | ⟨h, closed⟩, ended⟩, returned⟩
  · exact .unconnected
  · exact .unbegun returned
  · exact .unopened ended returned
  · have hcomplete := IsAttempt.complete h closed ended returned
    simp only [List.append_assoc, List.cons_append, List.nil_append] at hcomplete ⊢
    exact hcomplete

/-! ### Exchanges -/

/-- Attempts at a statement, of which all but the last fail, with a pause between each two. The last pause may be one
that cannot be made. -/
inductive IsExchange (q : Statement) : ℕ → List Made → Prop
  | last {ok : Bool} {t : List Made} (h : q.IsAttempt ok t) : IsExchange q 1 t
  | stopped {t : List Made} (h : q.IsAttempt false t) (delay : Number) :
      IsExchange q 1 (t ++ [⟨.sleep delay, false⟩])
  | again {n : ℕ} {t t' : List Made} (h : q.IsAttempt false t) (delay : Number) (h' : IsExchange q n t') :
      IsExchange q (n + 1) (t ++ ⟨.sleep delay, true⟩ :: t')

/-- **A statement that is tried again** makes the calls of one exchange. -/
theorem fits_retryFrom [Host σ] [Journalled σ] {base : Number} : ∀ left done : ℕ,
    (∀ k < done + left, ∃ delay, base.mul (.whole (Nat.pow 2 k)) = .ok delay) →
      Fits (fun _ t => ∃ n ≤ left + 1, q.IsExchange n t)
        (retryFrom base (run q.text q.params q.fetch) (left + 1) done : Act (Watched σ) Value) := by
  intro left
  induction left with
  | zero =>
    intro done _ w
    obtain ⟨t, hmade, ht⟩ := q.fits_run w
    rcases hrun : (run q.text q.params q.fetch : Act (Watched σ) Value).run.run w with ⟨r, w₁⟩
    rw [hrun] at hmade ht
    rw [run_retryFrom_of_last done hrun fun _ => rfl]
    exact ⟨t, hmade, 1, le_rfl, .last ht⟩
  | succ left ih =>
    intro done hdelay w
    obtain ⟨t, hmade, ht⟩ := q.fits_run w
    rcases hrun : (run q.text q.params q.fetch : Act (Watched σ) Value).run.run w with ⟨r, w₁⟩
    rw [hrun] at hmade ht
    by_cases hpassing : isPassing r = true
    · obtain ⟨f, rfl, htransient⟩ := isPassing_iff.mp hpassing
      obtain ⟨delay, hdelay₀⟩ := hdelay done (by omega)
      obtain ⟨note, hpause⟩ := exists_run_pause hdelay₀ f w₁
      rcases hsleep : Host.call (.sleep delay) (Journalled.record note w₁) with ⟨e | v, w₂⟩
      · rw [hsleep] at hpause
        rw [run_retryFrom_of_stopped hrun htransient hpause]
        refine ⟨t ++ [⟨.sleep delay, false⟩], ?_, 1, Nat.succ_pos _, .stopped ht delay⟩
        rw [← List.append_assoc, ← hmade]
        exact made_of_call hsleep
      · rw [hsleep] at hpause
        rw [run_retryFrom_of_again hrun htransient hpause]
        obtain ⟨t', hmade', n, hn, ht'⟩ := ih (done + 1) (fun k hk => hdelay k (by omega)) w₂
        have hmade₂ : w₂.made = w₁.made ++ [⟨.sleep delay, true⟩] := made_of_call hsleep
        refine ⟨t ++ ⟨.sleep delay, true⟩ :: t', ?_, n + 1, Nat.succ_le_succ hn, .again ht delay ht'⟩
        rw [hmade', hmade₂, hmade]
        simp
    · rw [run_retryFrom_of_last done hrun fun h => absurd h hpassing]
      exact ⟨t, hmade, 1, Nat.succ_pos _, .last ht⟩

theorem exists_delay : ∀ k < 3, ∃ delay, defaultDelay.mul (.whole (Nat.pow 2 k)) = .ok delay := by
  intro k hk
  interval_cases k <;> exact ⟨_, rfl⟩

theorem fits_query [Host σ] [Journalled σ] :
    Fits (fun _ t => ∃ n ≤ 4, q.IsExchange n t) (query q.text q.params q.fetch : Act (Watched σ) Value) :=
  q.fits_retryFrom 3 0 exists_delay

end Statement

/-! ### Order -/

/-- Whether a connection is out after a call; none if the call is out of order. -/
def hold : Bool → Made → Option Bool
  | false, ⟨.takeConnection, succeeded⟩ => some succeeded
  | false, ⟨.sleep _, _⟩ => some false
  | true, ⟨.giveBack, _⟩ => some false
  | true, ⟨.beginTransaction, _⟩ => some true
  | true, ⟨.openCursor, _⟩ => some true
  | true, ⟨.execute _ _, _⟩ => some true
  | true, ⟨.fetchOne, _⟩ => some true
  | true, ⟨.fetchAll, _⟩ => some true
  | true, ⟨.closeCursor, _⟩ => some true
  | true, ⟨.commit, _⟩ => some true
  | true, ⟨.rollback, _⟩ => some true
  | _, _ => none

/-- No call is out of order, and no connection is out at the end. -/
def Orderly (t : List Made) : Prop := t.foldlM hold false = some false

variable {t t' : List Made}

theorem orderly_nil : Orderly [] := rfl

theorem Orderly.append (h : Orderly t) (h' : Orderly t') : Orderly (t ++ t') := by
  unfold Orderly at *
  rw [List.foldlM_append, h]
  exact h'

theorem orderly_flatten {ts : List (List Made)} (h : ∀ t ∈ ts, Orderly t) : Orderly ts.flatten := by
  induction ts with
  | nil => exact orderly_nil
  | cons t ts ih =>
    obtain ⟨ht, hrest⟩ := List.forall_mem_cons.mp h
    rw [List.flatten_cons]
    exact ht.append (ih hrest)

theorem Fetch.call?_eq_some {fetch : Fetch} {c : Call} (h : fetch.call? = some c) : c = .fetchOne ∨ c = .fetchAll := by
  cases fetch with
  | nothing => cases h
  | one => exact .inl (Option.some.inj h).symm
  | all => exact .inr (Option.some.inj h).symm

/-- Whether a call tries to take a connection. -/
def Made.takes (m : Made) : Bool :=
  match m.call with
  | .takeConnection => true
  | _ => false

/-- Whether a call is a pause that is made. -/
def Made.pauses (m : Made) : Bool :=
  match m.call with
  | .sleep _ => m.succeeded
  | _ => false

namespace Statement

variable {q : Statement} {ok : Bool} {n : ℕ}

/-- An attempt is in order, takes a connection once or tries to, and does not pause. -/
theorem IsAttempt.orderly (h : q.IsAttempt ok t) :
    Orderly t ∧ t.countP Made.takes = 1 ∧ t.countP Made.pauses = 0 := by
  cases h with
  | unconnected => exact ⟨rfl, rfl, rfl⟩
  | unbegun returned => exact ⟨rfl, rfl, rfl⟩
  | unopened undone returned => exact ⟨rfl, rfl, rfl⟩
  | @complete ok t h closed ended returned =>
    have hend : (if (ok && closed) = true then Call.commit else .rollback) = .commit ∨
        (if (ok && closed) = true then Call.commit else .rollback) = .rollback := by
      split
      · exact .inl rfl
      · exact .inr rfl
    cases h with
    | refused => rcases hend with hend | hend <;> rw [hend] <;> exact ⟨rfl, rfl, rfl⟩
    | unfetched hfetch => rcases hend with hend | hend <;> rw [hend] <;> exact ⟨rfl, rfl, rfl⟩
    | fetched hfetch _ =>
      rcases Fetch.call?_eq_some hfetch with rfl | rfl <;> rcases hend with hend | hend <;> rw [hend] <;>
        exact ⟨rfl, rfl, rfl⟩

/-- **An exchange is in order** and has one more attempt than pauses that are made. -/
theorem IsExchange.orderly (h : q.IsExchange n t) :
    Orderly t ∧ t.countP Made.takes = n ∧ t.countP Made.pauses + 1 = n := by
  induction h with
  | last h =>
    obtain ⟨horderly, htakes, hpauses⟩ := h.orderly
    exact ⟨horderly, htakes, congrArg Nat.succ hpauses⟩
  | stopped h delay =>
    obtain ⟨horderly, htakes, hpauses⟩ := h.orderly
    have hsleep : Orderly [⟨.sleep delay, false⟩] := rfl
    refine ⟨horderly.append hsleep, ?_, ?_⟩
    · rw [List.countP_append, htakes]
      rfl
    · rw [List.countP_append, hpauses]
      rfl
  | again h delay _ ih =>
    obtain ⟨horderly, htakes, hpauses⟩ := h.orderly
    obtain ⟨horderly', htakes', hpauses'⟩ := ih
    have hsleep : Orderly [⟨.sleep delay, true⟩] := rfl
    refine ⟨horderly.append (hsleep.append horderly'), ?_, ?_⟩
    · rw [List.countP_append, List.countP_cons, htakes, htakes']
      exact Nat.add_comm 1 _
    · rw [List.countP_append, List.countP_cons, hpauses, Nat.zero_add]
      exact congrArg Nat.succ hpauses'

end Statement

end PageInvalidation.Database
