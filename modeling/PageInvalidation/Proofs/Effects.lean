import Mathlib.Order.Defs.Unbundled
import PageInvalidation.Proofs.Journal

/-! # What computations do to their state

A computation *leads along* a relation if every state is related to the one that the computation leaves,
whether it fails or not. For a preorder this passes from the steps of a computation to the whole of it. -/

namespace PageInvalidation.Act

variable {σ α β : Type} {R : σ → σ → Prop}

/-- Every state is related to the one that a computation leaves. -/
def Leads (R : σ → σ → Prop) (x : Act σ α) : Prop := ∀ s, R s (x.run.run s).2

theorem Leads.mono {R' : σ → σ → Prop} {x : Act σ α} (hx : x.Leads R) (h : ∀ s s', R s s' → R' s s') :
    x.Leads R' := fun s => h s _ (hx s)

theorem Leads.of_run {x : Act σ α} (hx : x.Leads R) {s s' : σ} {r : Except Fault α}
    (h : x.run.run s = (r, s')) : R s s' := by
  have hs := hx s
  rwa [h] at hs

theorem leads_update {f : σ → σ} (h : ∀ s, R s (f s)) : (update f).Leads R := h

theorem leads_observe {f : σ → α × σ} (h : ∀ s, R s (f s).2) : (observe f).Leads R := h

theorem leads_note [Journalled σ] (h : ∀ note s, R s (Journalled.record note s)) (level : Level)
    (source : String) (text : Text.CodeText) : (note level source text : Act σ Unit).Leads R := fun s => h _ s

variable [IsPreorder σ R]

theorem leads_pure (a : α) : (pure a : Act σ α).Leads R := fun s => refl_of R s

theorem leads_throw (e : Fault) : (throw e : Act σ α).Leads R := fun s => refl_of R s

theorem leads_noteIf [Journalled σ] (h : ∀ note s, R s (Journalled.record note s)) (level : Level)
    (source : String) : ∀ text? : Option Text.CodeText, (noteIf level source text? : Act σ Unit).Leads R
  | some text => leads_note h level source text
  | none => leads_pure ()

theorem leads_ofExcept {ε : Type} (fault : ε → Fault) (r : Except ε α) :
    (ofExcept fault r : Act σ α).Leads R := by
  cases r with
  | ok a => exact leads_pure a
  | error e => exact leads_throw (fault e)

theorem Leads.bind {x : Act σ α} (hx : x.Leads R) {f : α → Act σ β} (hf : ∀ a, (f a).Leads R) :
    (x >>= f).Leads R := by
  intro s
  have h := hx s
  rw [run_bind]
  rcases hxs : x.run.run s with ⟨e | a, s'⟩
  · rw [hxs] at h
    exact h
  · rw [hxs] at h
    exact trans_of R h (hf a s')

theorem Leads.map {x : Act σ α} (hx : x.Leads R) (f : α → β) : (f <$> x).Leads R := by
  rw [← bind_pure_comp]
  exact hx.bind fun a => leads_pure (f a)

theorem Leads.tryCatch {x : Act σ α} (hx : x.Leads R) {h : Fault → Act σ α} (hh : ∀ e, (h e).Leads R) :
    (tryCatch x h).Leads R := by
  intro s
  have hs := hx s
  rw [run_tryCatch]
  rcases hxs : x.run.run s with ⟨e | a, s'⟩
  · rw [hxs] at hs
    exact trans_of R hs (hh e s')
  · rw [hxs] at hs
    exact hs

theorem Leads.outcome {x : Act σ α} (hx : x.Leads R) : (outcome x).Leads R :=
  (hx.map Except.ok).tryCatch fun e => leads_pure (Except.error e)

/-- What follows and leaves every state as it is does not matter to the state. -/
theorem state_bind {x : Act σ α} {f : α → Act σ β} (hf : ∀ a, (f a).Leads Eq) (s : σ) :
    ((x >>= f).run.run s).2 = (x.run.run s).2 := by
  rw [run_bind]
  rcases x.run.run s with ⟨e | a, s'⟩
  · rfl
  · exact (hf a s').symm

theorem leads_forM {f : α → Act σ Unit} : ∀ {l : List α}, (∀ a ∈ l, (f a).Leads R) → (l.forM f).Leads R
  | [], _ => leads_pure ()
  | a :: _, h => (h a List.mem_cons_self).bind fun _ =>
    leads_forM fun a' ha' => h a' (List.mem_cons_of_mem a ha')

theorem leads_foldlM {f : β → α → Act σ β} (h : ∀ b a, (f b a).Leads R) :
    ∀ (l : List α) (b : β), (l.foldlM f b).Leads R
  | [], b => leads_pure b
  | a :: l, b => by
    rw [List.foldlM_cons]
    exact (h b a).bind fun b' => leads_foldlM h l b'

end PageInvalidation.Act
