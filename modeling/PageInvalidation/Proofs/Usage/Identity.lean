import PageInvalidation.Proofs.Aspect.Key
import PageInvalidation.Proofs.Entity
import Mathlib.Data.Set.Function

/-! # What identities tell apart

The identity of a usage is the text of its entity, a number sign and the text of its key. Usages of one entity are
told apart by it (`Usage.identity_injOn`), but entities and modifiers may have number signs themselves: two different
usages have one identity exactly if the modifier of one runs into the other (`Usage.identity_eq_iff`). Without a number
sign in an entity that cannot be (`Usage.identity_injOn_of_plain`). -/

namespace PageInvalidation.Usage

variable {u v : Usage}

theorem ofKeyText_text (u : Usage) : ofKeyText u.entity u.key.text = .ok u := by
  rw [ofKeyText, AspectKey.ofText_text]
  rfl

theorem eq_of_identity_eq (he : u.entity = v.entity) (h : u.identity = v.identity) : u = v := by
  obtain ⟨e, k⟩ := u
  obtain ⟨e', k'⟩ := v
  cases he
  have hk : k.text = k'.text := by simpa [identity] using h
  rw [AspectKey.text_injective hk]

/-- **The identity tells the usages of an entity apart.** -/
theorem identity_injOn {s : Set Usage} {e : EntityId} (hs : ∀ u ∈ s, u.entity = e) : Set.InjOn identity s :=
  fun u hu v hv h => eq_of_identity_eq ((hs u hu).trans (hs v hv).symm) h

/-! ### Number signs -/

/-- The modifier of a usage runs into another usage: it ends with a number sign and the key of the other one, whose
entity goes on, behind that of the first, with all that stands before this sign. -/
def RunsInto (u v : Usage) : Prop :=
  ∃ start, u.key.modifier = some (start ++ .scalar '#' :: v.key.text) ∧
    v.entity.serialization = u.entity.serialization ++ .scalar '#' :: u.key.aspect.code ++ .scalar '.' :: start

theorem RunsInto.identity_eq (h : u.RunsInto v) : u.identity = v.identity := by
  obtain ⟨start, hmodifier, hentity⟩ := h
  have hkey : u.key.text = u.key.aspect.code ++ .scalar '.' :: (start ++ .scalar '#' :: v.key.text) := by
    simp only [AspectKey.text, hmodifier]
  simp only [identity, hkey, hentity, List.append_assoc, List.cons_append]

theorem RunsInto.ne (h : u.RunsInto v) : u ≠ v := by
  obtain ⟨start, -, hentity⟩ := h
  rintro rfl
  have hlength := congrArg List.length hentity
  simp only [List.length_append, List.length_cons] at hlength
  omega

theorem RunsInto.sign_mem (h : u.RunsInto v) : .scalar '#' ∈ v.entity.serialization := by
  obtain ⟨start, -, hentity⟩ := h
  simp [hentity]

theorem exists_modifier_of_text {k k' : AspectKey} {s : Text.CodeText} (h : k.text = s ++ .scalar '#' :: k'.text) :
    ∃ start, k.modifier = some (start ++ .scalar '#' :: k'.text) ∧ s = k.aspect.code ++ .scalar '.' :: start := by
  have hletter : Text.CodePoint.scalar k.aspect.letter ≠ .scalar '#' := by cases k.aspect <;> decide
  rw [AspectKey.text_eq] at h
  cases s with
  | nil =>
    rw [List.nil_append, List.cons.injEq] at h
    exact absurd h.1 hletter
  | cons c s =>
    rw [List.cons_append, List.cons.injEq] at h
    obtain ⟨rfl, h⟩ := h
    cases hm : k.modifier with
    | none => simp [hm] at h
    | some m =>
      simp only [hm] at h
      cases s with
      | nil => simp at h
      | cons c s =>
        rw [List.cons_append, List.cons.injEq] at h
        obtain ⟨rfl, h⟩ := h
        exact ⟨s, congrArg some h, rfl⟩

/-- If the entity of a usage is the start of another's with the same identity, they are equal or the one runs into
the other. -/
theorem eq_or_runsInto {s : Text.CodeText} (he : v.entity.serialization = u.entity.serialization ++ s)
    (hk : .scalar '#' :: u.key.text = s ++ .scalar '#' :: v.key.text) (h : u.identity = v.identity) :
    u = v ∨ u.RunsInto v := by
  cases s with
  | nil =>
    rw [List.append_nil] at he
    exact .inl (eq_of_identity_eq (EntityId.serialization_injective he.symm) h)
  | cons c s =>
    rw [List.cons_append, List.cons.injEq] at hk
    obtain ⟨rfl, hk⟩ := hk
    obtain ⟨start, hmodifier, rfl⟩ := exists_modifier_of_text hk
    refine .inr ⟨start, hmodifier, ?_⟩
    rw [he, List.append_assoc, List.cons_append]

/-- **Two usages have one identity** if they are equal or one of them runs into the other, and in no other case. -/
theorem identity_eq_iff : u.identity = v.identity ↔ u = v ∨ u.RunsInto v ∨ v.RunsInto u := by
  constructor
  · intro h
    -- one entity is the start of the other
    rcases List.append_eq_append_iff.mp h with ⟨s, he, hk⟩ | ⟨s, he, hk⟩
    · exact (eq_or_runsInto he hk h).imp id .inl
    · exact (eq_or_runsInto he hk h.symm).imp Eq.symm .inr
  · rintro (rfl | h | h)
    · rfl
    · exact h.identity_eq
    · exact h.identity_eq.symm

theorem identity_injOn_iff {s : Set Usage} : Set.InjOn identity s ↔ ∀ u ∈ s, ∀ v ∈ s, ¬u.RunsInto v := by
  constructor
  · exact fun h u hu v hv hruns => hruns.ne (h hu hv hruns.identity_eq)
  · intro h u hu v hv heq
    rcases identity_eq_iff.mp heq with heq | hruns | hruns
    · exact heq
    · exact absurd hruns (h u hu v hv)
    · exact absurd hruns (h v hv u hu)

/-- **The identity tells usages apart** if no entity has a number sign. -/
theorem identity_injOn_of_plain {s : Set Usage} (hs : ∀ u ∈ s, .scalar '#' ∉ u.entity.serialization) :
    Set.InjOn identity s :=
  identity_injOn_iff.mpr fun _ _ v hv hruns => hs v hv hruns.sign_mem

end PageInvalidation.Usage
