import Mathlib.Data.List.Perm.Basic
import PageInvalidation.Dispatch.Publisher

/-! # Ledgers

What became of the records of a run can be told from its calls and the broker that it started with: a
ledger replays the calls and keeps the records that were acknowledged and those that were rejected. No
record is lost or invented on the way (`Ledger.perm_after`).

The only thing asked of a broker is that a flush is honest: it reports as many records as are still
queued when it ends. -/

namespace PageInvalidation.Dispatch

/-- Whether a record was rejected. -/
def Fate.isRejected : Fate → Bool
  | .rejected _ => true
  | .acknowledged | .queued => false

/-- The record that a call hands over to the broker. -/
def Call.produced? : Call → Option Record
  | .produce r => some r
  | _ => none

/-- The broker, and the records that it has settled. -/
structure Ledger where
  broker : Broker
  acknowledged : List Record
  rejected : List Record

namespace Ledger

variable {l : Ledger} {c : Call} {cs cs' : List Call} {s : Settlement}

/-- Nothing is settled yet. -/
def opened (b : Broker) : Ledger := ⟨b, [], []⟩

/-- Queued records are settled. -/
def settle (l : Ledger) (s : Settlement) : Ledger where
  broker := l.broker.settle s
  acknowledged := l.acknowledged ++ ((l.broker.fates s).filter fun e => e.2 = .acknowledged).map Prod.fst
  rejected := l.rejected ++ ((l.broker.fates s).filter fun e => e.2.isRejected).map Prod.fst

/-- The ledger after a call. -/
def step (l : Ledger) : Call → Ledger
  | .produce r =>
    { l with broker := { (Publisher.nextOffer l.broker).2 with queue := l.broker.queue ++ [r] } }
  | .refuse _ => { l with broker := (Publisher.nextOffer l.broker).2 }
  | .poll =>
    { l with broker := (Publisher.nextPoll l.broker).2 }.settle (Publisher.nextPoll l.broker).1
  | .flush _ =>
    { l with broker := (Publisher.nextFlush l.broker).2 }.settle (Publisher.nextFlush l.broker).1.1
  | _ => l

/-- The ledger after some calls. -/
def after (l : Ledger) (cs : List Call) : Ledger := cs.foldl step l

/-- Nothing is queued, and nothing was rejected. -/
def Delivered (l : Ledger) : Prop := l.broker.queue = [] ∧ l.rejected = []

/-- Each flush reports the number of records that are left in the queue. -/
def Honest (l : Ledger) (cs : List Call) : Prop :=
  ∀ before timeout later, cs = before ++ .flush timeout :: later →
    (Publisher.nextFlush (l.after before).broker).1.2 =
      (l.after (before ++ [.flush timeout])).broker.queue.length

/-! ### Calls one after the other -/

@[simp]
theorem after_nil (l : Ledger) : l.after [] = l := rfl

@[simp]
theorem after_cons (l : Ledger) (c : Call) (cs : List Call) : l.after (c :: cs) = (l.step c).after cs := rfl

theorem after_append (l : Ledger) (cs cs' : List Call) : l.after (cs ++ cs') = (l.after cs).after cs' :=
  List.foldl_append

/-- A ledger with earlier entries. -/
def continuing (l first : Ledger) : Ledger :=
  ⟨l.broker, first.acknowledged ++ l.acknowledged, first.rejected ++ l.rejected⟩

theorem step_continuing (l first : Ledger) (c : Call) :
    (l.continuing first).step c = (l.step c).continuing first := by
  cases c <;> simp [step, settle, continuing]

/-- What was settled before a list of calls has no influence on them. -/
theorem after_continuing (first : Ledger) : ∀ (cs : List Call) (l : Ledger),
    (l.continuing first).after cs = (l.after cs).continuing first
  | [], l => rfl
  | c :: cs, l => by
    rw [after_cons, step_continuing, after_continuing first cs]
    rfl

theorem after_eq_continuing (l : Ledger) (cs : List Call) :
    l.after cs = ((opened l.broker).after cs).continuing l := by
  rw [← after_continuing]
  simp [continuing, opened]

theorem rejected_after_append (l : Ledger) (cs cs' : List Call) :
    (l.after (cs ++ cs')).rejected =
      (l.after cs).rejected ++ ((opened (l.after cs).broker).after cs').rejected := by
  rw [after_append, after_eq_continuing (l.after cs)]
  rfl

/-! ### Honest brokers -/

/-- Whether a call is no flush, or an honest one. -/
def Reports (l : Ledger) : Call → Prop
  | .flush timeout => (Publisher.nextFlush l.broker).1.2 = (l.step (.flush timeout)).broker.queue.length
  | _ => True

instance decidableReports (l : Ledger) : (c : Call) → Decidable (l.Reports c)
  | .flush timeout => inferInstanceAs (Decidable
      ((Publisher.nextFlush l.broker).1.2 = (l.step (.flush timeout)).broker.queue.length))
  | .handleSignal _ | .openPool _ _ _ | .openConsumer _ | .subscribe _ | .openProducer _ | .consume _ _
  | .produce _ | .refuse _ | .poll | .commit | .closeConsumer | .database _ => isTrue trivial

theorem honest_nil (l : Ledger) : l.Honest [] := by
  intro before timeout later h
  simp at h

theorem honest_cons (l : Ledger) (c : Call) (cs : List Call) :
    l.Honest (c :: cs) ↔ l.Reports c ∧ (l.step c).Honest cs := by
  constructor
  · intro h
    refine ⟨?_, fun before timeout later heq => h (c :: before) timeout later (by rw [heq]; rfl)⟩
    cases c with
    | flush timeout => exact h [] timeout cs rfl
    | _ => exact trivial
  · rintro ⟨hreports, hrest⟩ before timeout later heq
    cases before with
    | nil =>
      obtain ⟨rfl, -⟩ := List.cons.inj heq
      exact hreports
    | cons c' before =>
      obtain ⟨rfl, htail⟩ := List.cons.inj heq
      exact hrest before timeout later htail

instance decidableHonest : (l : Ledger) → (cs : List Call) → Decidable (l.Honest cs)
  | l, [] => isTrue l.honest_nil
  | l, c :: cs =>
    have := decidableHonest (l.step c) cs
    decidable_of_iff _ (l.honest_cons c cs).symm

theorem Honest.of_append (h : l.Honest (cs ++ cs')) : l.Honest cs := by
  rintro before timeout later rfl
  exact h before timeout (later ++ cs') (by simp)

theorem Honest.after (h : l.Honest (cs ++ cs')) : (l.after cs).Honest cs' := by
  rintro before timeout later rfl
  have hall := h (cs ++ before) timeout later (by simp)
  rwa [List.append_assoc, after_append, after_append] at hall

/-! ### Every record is accounted for -/

/-- All records that a ledger knows. -/
def records (l : Ledger) : List Record := l.acknowledged ++ l.rejected ++ l.broker.queue

theorem partition_fates : ∀ fates : List (Record × Fate),
    ((fates.filter fun e => e.2 = .acknowledged).map Prod.fst ++
      ((fates.filter fun e => e.2.isRejected).map Prod.fst ++
        (fates.filter fun e => e.2 = .queued).map Prod.fst)).Perm (fates.map Prod.fst)
  | [] => .nil
  | (r, fate) :: fates => by
    have ih := partition_fates fates
    cases fate with
    | acknowledged => simpa [Fate.isRejected] using ih
    | rejected reason => simpa [Fate.isRejected] using List.perm_middle.trans (ih.cons r)
    | queued =>
      rw [← List.append_assoc] at ih
      simpa [Fate.isRejected, ← List.append_assoc] using List.perm_middle.trans (ih.cons r)

theorem map_fst_fates (b : Broker) (s : Settlement) : (b.fates s).map Prod.fst = b.queue := by
  unfold Broker.fates
  rw [List.map_map]
  exact List.zipIdx_map_fst 0 b.queue

theorem perm_settle (l : Ledger) (s : Settlement) : (l.settle s).records.Perm l.records := by
  have h := partition_fates (l.broker.fates s)
  rw [map_fst_fates] at h
  unfold records settle Broker.settle
  simp only [List.append_assoc]
  refine List.Perm.append_left l.acknowledged ?_
  exact (List.perm_append_comm_assoc _ _ _).trans (List.Perm.append_left l.rejected h)

theorem perm_step (l : Ledger) (c : Call) : (l.step c).records.Perm (l.records ++ c.produced?.toList) := by
  cases c with
  | produce r => simp [step, records, Call.produced?]
  | poll =>
    have h := perm_settle { l with broker := (Publisher.nextPoll l.broker).2 } (Publisher.nextPoll l.broker).1
    have hqueue : (Publisher.nextPoll l.broker).2.queue = l.broker.queue := by
      unfold Publisher.nextPoll
      split <;> rfl
    simpa [step, records, Call.produced?, hqueue] using h
  | flush t =>
    have h := perm_settle { l with broker := (Publisher.nextFlush l.broker).2 }
      (Publisher.nextFlush l.broker).1.1
    have hqueue : (Publisher.nextFlush l.broker).2.queue = l.broker.queue := by
      unfold Publisher.nextFlush
      split <;> rfl
    simpa [step, records, Call.produced?, hqueue] using h
  | _ => simp [step, records, Call.produced?, Publisher.nextOffer]

/-- **Records are neither lost nor invented.** -/
theorem perm_after : ∀ (cs : List Call) (l : Ledger),
    (l.after cs).records.Perm (l.records ++ cs.filterMap Call.produced?)
  | [], l => by simp
  | c :: cs, l => by
    have ih := perm_after cs (l.step c)
    have hstep := (perm_step l c).append_right (cs.filterMap Call.produced?)
    refine ih.trans (hstep.trans ?_)
    rw [List.append_assoc, List.filterMap_cons]
    cases c.produced? <;> simp

theorem Delivered.acknowledged_perm {b : Broker} (h : ((opened b).after cs).Delivered) :
    ((opened b).after cs).acknowledged.Perm (b.queue ++ cs.filterMap Call.produced?) := by
  have hall := perm_after cs (opened b)
  have hrecords : ((opened b).after cs).records = ((opened b).after cs).acknowledged := by
    rw [records, h.1, h.2, List.append_nil, List.append_nil]
  rwa [hrecords] at hall

end Ledger

end PageInvalidation.Dispatch
