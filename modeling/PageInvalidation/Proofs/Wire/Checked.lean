import PageInvalidation.Proofs.Outcome
import PageInvalidation.Wire.Checked

/-! # Parts of a message that are taken over

When a part that is put together from others, placed in a whole or checked further has no issue. -/

namespace PageInvalidation.Wire.Checked

variable {α β : Type}

theorem under_eq_ok {part : Checked α} {place : Place} {a : α} :
    part.under place = .ok a ↔ part = .ok a := Outcome.mapError_eq_ok

theorem map_eq_ok {part : Checked α} {f : α → β} {b : β} :
    part.map f = .ok b ↔ ∃ a, part = .ok a ∧ f a = b := Outcome.map_eq_ok

theorem and_eq_ok {part : Checked (α → β)} {next : Checked α} {b : β} :
    part.and next = .ok b ↔ ∃ f a, part = .ok f ∧ next = .ok a ∧ f a = b := by
  constructor
  · intro h
    cases part with
    | error is => cases h
    | ok f =>
      cases next with
      | error is => cases h
      | ok a => exact ⟨f, a, rfl, rfl, Except.ok.inj h⟩
  · rintro ⟨f, a, rfl, rfl, rfl⟩
    rfl

theorem guarded_eq_ok {part : Checked α} {is : List Issue} {a : α} :
    part.guarded is = .ok a ↔ part = .ok a ∧ is = [] := by
  constructor
  · intro h
    cases part with
    | error is' => cases h
    | ok b =>
      rw [guarded] at h
      split at h
      · rename_i hempty
        exact ⟨h, List.isEmpty_iff.mp hempty⟩
      · cases h
  · rintro ⟨rfl, rfl⟩
    rfl

end PageInvalidation.Wire.Checked
