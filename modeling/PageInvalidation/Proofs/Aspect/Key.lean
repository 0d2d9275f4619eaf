import PageInvalidation.Proofs.Outcome
import PageInvalidation.Usage.Basic

/-! # Keys are known by their texts

The letter of a key's text tells its aspect and the rest its modifier, so a text is read back as its key, and two
keys with one text are the same key (`text_injective`). The texts of keys are exactly those that can be read
(`ofText_eq_ok_iff`).
Keys and their texts are thus a lossless code for aspects with modifiers (`lossless`). A key *covers* itself, and
a bare key covers every key of its aspect; lookups and narrowing are both stated through this relation. -/

namespace PageInvalidation.AspectKey

theorem ext {k k' : AspectKey} (ha : k.aspect = k'.aspect) (hm : k.modifier = k'.modifier) :
    k = k' := by
  cases k
  cases k'
  cases ha
  cases hm
  rfl

@[simp] theorem aspect_bare (a : Aspect) : (bare a).aspect = a := rfl

@[simp] theorem modifier_bare (a : Aspect) : (bare a).modifier = none := rfl

@[simp] theorem isModified_bare (a : Aspect) : (bare a).isModified = false := rfl

theorem bare_injective {a b : Aspect} (h : bare a = bare b) : a = b := congrArg aspect h

theorem acceptsModifier_of_isModified {k : AspectKey} (h : k.isModified = true) :
    k.aspect.acceptsModifier = true := by
  obtain ⟨m, hm⟩ := Option.isSome_iff_exists.mp h
  exact (k.valid m hm).1

theorem eq_bare_of_not_isModified {k : AspectKey} (h : k.isModified = false) : k = bare k.aspect :=
  ext rfl (Option.not_isSome_iff_eq_none.mp (Bool.eq_false_iff.mp h))

theorem text_eq (k : AspectKey) : k.text =
    .scalar k.aspect.letter :: (match k.modifier with | none => [] | some m => .scalar '.' :: m) := by
  unfold text Aspect.code
  cases k.modifier <;> rfl

/-! ### Reading a text back -/

theorem splitAtPoint_text (k : AspectKey) :
    splitAtPoint k.text = (k.aspect.code, k.modifier) := by
  have hletter : Text.CodePoint.scalar k.aspect.letter ≠ .scalar '.' := by cases k.aspect <;> decide
  rw [text_eq, splitAtPoint, if_neg hletter]
  cases k.modifier with
  | none => rfl
  | some m => simp [splitAtPoint, Aspect.code]

/-- **The text of a key writes that key**, also if the modifier contains points. -/
theorem ofText_text (k : AspectKey) : ofText k.text = .ok k := by
  have hne : k.text ≠ [] := by
    rw [text_eq]
    exact List.cons_ne_nil _ _
  have hcode : Aspect.ofCode? k.aspect.code = some k.aspect := Aspect.ofCode?_eq_some_iff.mpr rfl
  unfold ofText
  rw [if_neg hne, splitAtPoint_text]
  simp only [hcode]
  cases hm : k.modifier with
  | none => exact congrArg Except.ok (ext rfl hm.symm)
  | some m =>
    obtain ⟨ha, hne⟩ := k.valid m hm
    dsimp only
    rw [dif_neg hne, dif_pos ha]
    exact congrArg Except.ok (ext rfl hm.symm)

/-- **A text is that of one key.** -/
theorem text_injective {k k' : AspectKey} (h : k.text = k'.text) : k = k' := by
  have hk := ofText_text k
  rw [h, ofText_text] at hk
  exact (Except.ok.inj hk).symm

theorem eq_append_of_splitAtPoint : ∀ {s before : Text.CodeText} {after : Option Text.CodeText},
    splitAtPoint s = (before, after) → s = before ++ after.elim [] (.scalar '.' :: ·)
  | [], _, _, h => by
    cases h
    rfl
  | c :: s, before, after, h => by
    rw [splitAtPoint] at h
    split at h
    · rename_i hc
      cases h
      rw [hc]
      rfl
    · cases h
      exact congrArg (c :: ·) (eq_append_of_splitAtPoint rfl)

theorem text_of_ofText {s : Text.CodeText} {k : AspectKey} (h : ofText s = .ok k) : k.text = s := by
  unfold ofText at h
  split at h
  · cases h
  dsimp only at h
  rcases hsplit : splitAtPoint s with ⟨token, rest⟩
  rw [hsplit] at h
  dsimp only at h
  split at h
  · cases h
  rename_i a ha
  rw [eq_append_of_splitAtPoint hsplit, text_eq, Aspect.ofCode?_eq_some_iff.mp ha]
  split at h
  · cases h
    rfl
  · split at h
    · cases h
    split at h
    · cases h
      rfl
    · cases h

/-- **The texts that can be read are those of keys.** -/
theorem ofText_eq_ok_iff {s : Text.CodeText} {k : AspectKey} : ofText s = .ok k ↔ k.text = s :=
  ⟨text_of_ofText, fun h => h ▸ ofText_text k⟩

/-! ### Aspects with modifiers and their keys -/

/-- The aspect and the modifier of a key. -/
def parts (k : AspectKey) : Aspect × Option Text.CodeText := (k.aspect, k.modifier)

theorem make_eq_ok_iff {a : Aspect} {m : Option Text.CodeText} {k : AspectKey} :
    make a m = .ok k ↔ k.parts = (a, m) := by
  constructor
  · intro h
    unfold make at h
    split at h
    · cases h
      rfl
    split at h
    · split at h
      · cases h
      · cases h
        rfl
    · cases h
  · intro h
    obtain ⟨a', m', hvalid⟩ := k
    obtain ⟨rfl, rfl⟩ := Prod.mk.inj h
    cases m' with
    | none => rfl
    | some m =>
      obtain ⟨ha, hm⟩ := hvalid m rfl
      exact (dif_pos ha).trans (dif_neg hm)

theorem exists_make_iff {a : Aspect} {m : Option Text.CodeText} : (∃ k, make a m = .ok k) ↔
    m = none ∨ a ∈ [.label, .description, .statement] ∧ ∃ s, m = some s ∧ s ≠ [] := by
  have haccepts : a.acceptsModifier = true ↔ a ∈ [.label, .description, .statement] := by cases a <;> decide
  rw [← haccepts]
  constructor
  · rintro ⟨k, hk⟩
    cases make_eq_ok_iff.mp hk
    cases hm : k.modifier with
    | none => exact .inl rfl
    | some s => exact .inr ⟨(k.valid s hm).1, s, rfl, (k.valid s hm).2⟩
  · rintro (rfl | ⟨ha, s, rfl, hs⟩)
    · exact ⟨bare a, rfl⟩
    · exact ⟨⟨a, some s, by rintro _ ⟨⟩; exact ⟨ha, hs⟩⟩, make_eq_ok_iff.mpr rfl⟩

/-- **Keys are a lossless code.** An aspect and a modifier have a key if the aspect accepts the modifier; a text is
the text of their key exactly if they are what it is split into, so the texts that can be split are those of keys. A
usage is known by its entity and the text of its key. -/
theorem lossless :
    (∀ a m, (∃ s, (make a m).map text = .ok s) ↔
      m = none ∨ a ∈ [.label, .description, .statement] ∧ ∃ s, m = some s ∧ s ≠ []) ∧
    (∀ a m s, (make a m).map text = .ok s ↔ (ofText s).map parts = .ok (a, m)) ∧
    (∀ s, (∃ p, (ofText s).map parts = .ok p) ↔ ∃ a m, (make a m).map text = .ok s) ∧
    (∀ a m s, (make a m).map text = .ok s → s = a.code ++ m.elim [] (.scalar '.' :: ·)) ∧
    (∀ u : Usage, Usage.ofKeyText u.entity u.key.text = .ok u) ∧
    ∀ u v : Usage, u.entity = v.entity → (u.key.text = v.key.text ↔ u = v) := by
  have hcode : ∀ a m s, (make a m).map text = .ok s ↔ (ofText s).map parts = .ok (a, m) := by
    intro a m s
    rw [Outcome.map_eq_ok, Outcome.map_eq_ok]
    exact exists_congr fun k => by rw [make_eq_ok_iff, ofText_eq_ok_iff, and_comm]
  refine ⟨fun a m => ?_, hcode, fun s => ?_, fun a m s h => ?_, fun u => ?_, fun u v hentity => ?_⟩
  · rw [← exists_make_iff]
    simp only [Outcome.map_eq_ok]
    exact ⟨fun ⟨_, k, hk, _⟩ => ⟨k, hk⟩, fun ⟨k, hk⟩ => ⟨_, k, hk, rfl⟩⟩
  · simp only [hcode]
    exact Prod.exists
  · obtain ⟨k, hk, rfl⟩ := Outcome.map_eq_ok.mp h
    cases make_eq_ok_iff.mp hk
    unfold text
    cases k.modifier with
    | none => exact (List.append_nil _).symm
    | some m => rfl
  · rw [Usage.ofKeyText, ofText_text]
    rfl
  · refine ⟨fun htext => ?_, fun h => congrArg (fun u => u.key.text) h⟩
    obtain ⟨e, k⟩ := u
    obtain ⟨e', k'⟩ := v
    cases hentity
    cases text_injective htext
    rfl

/-! ### Keys that stand for others -/

/-- A key stands for another: it is the same one, or the bare key of its aspect. -/
def Covers (k k' : AspectKey) : Prop := k = k' ∨ k = k'.stripped

instance (k k' : AspectKey) : Decidable (Covers k k') := inferInstanceAs (Decidable (_ ∨ _))

theorem covers_bare {k : AspectKey} {a : Aspect} : k.Covers (bare a) ↔ k = bare a := or_self_iff

theorem covers_of_not_isModified {k k' : AspectKey} (h : k'.isModified = false) :
    k.Covers k' ↔ k = k' := by
  rw [eq_bare_of_not_isModified h, covers_bare]

theorem Covers.aspect_eq {k k' : AspectKey} (h : k.Covers k') : k.aspect = k'.aspect := by
  rcases h with rfl | rfl
  · rfl
  · rfl

theorem bare_covers {k : AspectKey} {a : Aspect} (ha : a.acceptsModifier = false) :
    (bare a).Covers k ↔ k = bare a := by
  constructor
  · intro h
    cases hk : k.isModified with
    | false => exact ((covers_of_not_isModified hk).mp h).symm
    | true =>
      have hacc := acceptsModifier_of_isModified hk
      rw [← h.aspect_eq, aspect_bare, ha] at hacc
      cases hacc
  · rintro rfl
    exact .inl rfl

end PageInvalidation.AspectKey
