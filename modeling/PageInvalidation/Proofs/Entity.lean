import PageInvalidation.Entity
import PageInvalidation.Proofs.Text.Numeral
import PageInvalidation.Proofs.Text.UpperCase
import PageInvalidation.Proofs.Text.Words

/-! # Identifiers read from texts

A text is read by its spelling, without blanks around and in upper case. No spelling ends with a blank, so the line
feed that may end a line of the usual form never does (`EntityId.isUsualLine_canonical`), and the texts that are read
are those whose spelling is a capital letter and a number (`EntityId.parse_eq_ok`). A serialization is spelled by
itself and by its variants in case and blanks (`EntityId.canonical_of_varies`).

* `EntityId.parse_serialization`: reading keeps the serializations that it gives out.
* `EntityId.parses_onto_wellSpelled`: what is read, and from which texts. -/

namespace PageInvalidation.EntityId

variable {s t : Text.CodeText} {e : EntityId}

theorem serialization_injective {e e' : EntityId} (h : e.serialization = e'.serialization) : e = e' := by
  cases e
  cases h
  rfl

theorem ofText_eq_ok : ofText s = .ok e ↔ e.serialization = s := by
  unfold ofText
  constructor
  · intro h
    split at h
    · cases h
      rfl
    · cases h
  · rintro rfl
    exact dif_pos e.not_blank

/-! ### The usual form -/

/-- The usual form: a capital letter of ASCII, a digit from 1 to 9 and any digits behind it, and nothing else. -/
inductive WellSpelled : Text.CodeText → Prop where
  | mk {letter first : Char} {rest : Text.CodeText} (hletter : 'A' ≤ letter ∧ letter ≤ 'Z')
      (hfirst : '1' ≤ first ∧ first ≤ '9') (hrest : ∀ p ∈ rest, ∃ c, p = .scalar c ∧ '0' ≤ c ∧ c ≤ '9') :
      WellSpelled (.scalar letter :: .scalar first :: rest)

theorem isUsual_iff : isUsual t = true ↔ WellSpelled t := by
  have hdigit : ∀ p : Text.CodePoint, p.satisfies Char.isDigit = true ↔ ∃ c, p = .scalar c ∧ '0' ≤ c ∧ c ≤ '9' := by
    intro p
    refine Text.CodePoint.satisfies_eq_true.trans (exists_congr fun c => and_congr_right fun _ => ?_)
    rw [Char.isDigit, Bool.and_eq_true, decide_eq_true_eq, decide_eq_true_eq]
    exact Iff.rfl
  constructor
  · intro h
    unfold isUsual at h
    split at h
    · simp only [Bool.and_eq_true, decide_eq_true_eq, List.all_eq_true, hdigit] at h
      obtain ⟨⟨⟨⟨hA, hZ⟩, h1⟩, h9⟩, hrest⟩ := h
      exact .mk ⟨hA, hZ⟩ ⟨h1, h9⟩ hrest
    · cases h
  · rintro ⟨⟨hA, hZ⟩, ⟨h1, h9⟩, hrest⟩
    simp only [isUsual, Bool.and_eq_true, decide_eq_true_eq, List.all_eq_true, hdigit]
    exact ⟨⟨⟨⟨hA, hZ⟩, h1⟩, h9⟩, hrest⟩

instance (t : Text.CodeText) : Decidable (WellSpelled t) := decidable_of_iff _ isUsual_iff

theorem WellSpelled.ne_nil (h : WellSpelled t) : t ≠ [] := by
  cases h
  exact List.cons_ne_nil _ _

/-- The characters of the usual form are digits and capitals. -/
theorem WellSpelled.exists_of_mem (h : WellSpelled t) : ∀ p ∈ t, ∃ c, p = .scalar c ∧ 48 ≤ c.toNat ∧ c.toNat ≤ 90 := by
  obtain ⟨⟨hA, hZ⟩, ⟨h1, h9⟩, hrest⟩ := h
  rename_i letter first rest
  have hle : ∀ {a b : Char}, a ≤ b → a.toNat ≤ b.toNat := fun h => h
  have hA' : 65 ≤ letter.toNat := hle hA
  have hZ' : letter.toNat ≤ 90 := hle hZ
  have h1' : 49 ≤ first.toNat := hle h1
  have h9' : first.toNat ≤ 57 := hle h9
  intro p hp
  rcases List.mem_cons.mp hp with rfl | hp
  · exact ⟨letter, rfl, by omega, by omega⟩
  · rcases List.mem_cons.mp hp with rfl | hp
    · exact ⟨first, rfl, by omega, by omega⟩
    · obtain ⟨c, rfl, h0, hlast⟩ := hrest p hp
      have h0' : 48 ≤ c.toNat := hle h0
      have hlast' : c.toNat ≤ 57 := hle hlast
      exact ⟨c, rfl, by omega, by omega⟩

theorem isBlank_of_toNat {c : Char} (h : 48 ≤ c.toNat ∧ c.toNat < 123) : Text.isBlank c = false := by
  refine Text.isBlank_of_isGraphic ?_
  rw [Text.isGraphic, Bool.and_eq_true, decide_eq_true_eq, decide_eq_true_eq]
  omega

theorem WellSpelled.isBlank_of_mem (h : WellSpelled t) : ∀ p ∈ t, p.satisfies Text.isBlank = false := fun p hp => by
  obtain ⟨c, rfl, hlow, hhigh⟩ := h.exists_of_mem p hp
  exact isBlank_of_toNat ⟨hlow, Nat.lt_of_le_of_lt hhigh (by decide)⟩

theorem WellSpelled.isScalar (h : WellSpelled t) : Text.CodeText.isScalar t = true :=
  List.all_eq_true.mpr fun p hp => by
    obtain ⟨c, rfl, -⟩ := h.exists_of_mem p hp
    rfl

/-! ### Spellings -/

/-- **A spelling does not end with a line feed**, so it is a line of the usual form only if it is of that form. -/
theorem isUsualLine_canonical (s : Text.CodeText) : isUsualLine (canonical s) = isUsual (canonical s) := by
  have hlast : (canonical s).getLast? ≠ some (.scalar '\n') := by
    intro h
    obtain ⟨p, hp, hmem⟩ := Text.mem_upperPoint_of_getLast?_upper h
    have hblank := Text.isBlank_of_mem_upperPoint (Text.getLast?_trim hp) hmem
    exact absurd hblank (by decide)
  rw [isUsualLine, beq_eq_false_iff_ne.mpr hlast, Bool.false_and, Bool.or_false]

/-- A text writes another one with its first letter in either case and with blanks around. -/
def Varies (t t' : Text.CodeText) : Prop :=
  ∃ before letter number after, t = before ++ .scalar letter :: number ++ after ∧
    t' = .scalar letter.toUpper :: number ∧ ∀ p ∈ before ++ after, p.satisfies Text.isBlank = true

/-- **The usual form is the spelling of its variants.** -/
theorem canonical_of_varies (h : WellSpelled t) (hs : Varies s t) : canonical s = t := by
  obtain ⟨before, letter, number, after, rfl, rfl, hblank⟩ := hs
  obtain ⟨⟨_, heq, hcapital⟩, hnumber⟩ := List.forall_mem_cons.mp h.exists_of_mem
  obtain rfl := Text.CodePoint.scalar.inj heq
  obtain ⟨-, hdigits⟩ := List.forall_mem_cons.mp h.isBlank_of_mem
  have hletter : Text.isBlank letter = false := by
    rcases Text.toUpper_cases letter with hsame | hsmall
    · rw [hsame] at hcapital
      exact isBlank_of_toNat ⟨hcapital.1, by omega⟩
    · exact isBlank_of_toNat ⟨by omega, hsmall.2⟩
  have htrim : Text.trim (·.satisfies Text.isBlank) (before ++ .scalar letter :: number ++ after) =
      .scalar letter :: number := by
    rw [Text.trim_append_append (fun p hp => hblank p (List.mem_append_left _ hp)) fun p hp =>
      hblank p (List.mem_append_right _ hp)]
    exact Text.trim_eq_self (List.forall_mem_cons.mpr ⟨hletter, hdigits⟩)
  have hupper : ∀ {c : Char}, c.toUpper.toNat < 97 → Text.upperPoint (.scalar c) = [.scalar c.toUpper] := fun hc => by
    rw [Text.upperPoint, Text.upperChar_of_toUpper_lt hc]
    rfl
  have hsame : number.map Text.upperPoint = number.map fun p => [p] := List.map_congr_left fun p hp => by
    obtain ⟨c, rfl, -, hc⟩ := hnumber p hp
    rw [Text.upperPoint, Text.upperChar_of_lt (Nat.lt_of_le_of_lt hc (by decide))]
    rfl
  rw [canonical, htrim, Text.upper, List.flatMap_cons, List.flatMap_def, hsame, ← List.flatMap_def,
    List.flatMap_singleton', hupper (Nat.lt_of_le_of_lt hcapital.2 (by decide)), List.singleton_append]

theorem WellSpelled.varies (h : WellSpelled t) : Varies t t := by
  cases h with
  | @mk letter first rest hletter hfirst hrest =>
    have hsame : letter.toUpper = letter := by
      rcases Text.toUpper_cases letter with hsame | ⟨hlow, -⟩
      · exact hsame
      · have hZ : letter.toNat ≤ 90 := hletter.2
        omega
    exact ⟨[], letter, .scalar first :: rest, [], by simp, by rw [hsame], by simp⟩

/-! ### Reading -/

/-- **A text is read** if its spelling is of the usual form, which is then the serialization. -/
theorem parse_eq_ok : parse s = .ok e ↔ WellSpelled (canonical s) ∧ e.serialization = canonical s := by
  have hparse : parse s = if isUsual (canonical s) then ofText (canonical s) else .error (.malformed s) := by
    rw [← isUsualLine_canonical]
    rfl
  rw [hparse, ← isUsual_iff, ← ofText_eq_ok]
  split
  · rename_i husual
    rw [and_iff_right husual]
  · rename_i husual
    exact ⟨nofun, fun h => absurd h.1 husual⟩

theorem parse_of_not_wellSpelled (h : ¬WellSpelled (canonical s)) : parse s = .error (.malformed s) := by
  rw [← isUsual_iff, ← isUsualLine_canonical] at h
  exact if_neg h

theorem exists_parse (h : WellSpelled (canonical s)) : ∃ e, parse s = .ok e := by
  have hblank : Text.trim (·.satisfies Text.isBlank) (canonical s) ≠ [] := by
    rw [Text.trim_eq_self h.isBlank_of_mem]
    exact h.ne_nil
  exact ⟨⟨canonical s, hblank⟩, parse_eq_ok.mpr ⟨h, rfl⟩⟩

/-- **A serialization that was read is read from each of its variants.** -/
theorem parse_of_varies (h : parse s = .ok e) (ht : Varies t e.serialization) : parse t = .ok e := by
  obtain ⟨hspelled, hserialization⟩ := parse_eq_ok.mp h
  rw [← hserialization] at hspelled
  have hcanonical : canonical t = e.serialization := canonical_of_varies hspelled ht
  exact parse_eq_ok.mpr ⟨by rwa [hcanonical], hcanonical.symm⟩

/-- **A serialization that was read is read again.** -/
theorem parse_serialization (h : parse s = .ok e) : parse e.serialization = .ok e := by
  obtain ⟨hspelled, hserialization⟩ := parse_eq_ok.mp h
  exact parse_of_varies h (hserialization ▸ hspelled.varies)

/-- **Reading puts texts in canonical form.** A text is read exactly if it is well spelled once blanks around it are
taken away and it is put in upper case, and this is then the serialization; so the serializations given out are the well
spelled texts. Neither a number sign nor a blank is in them, and a serialization with its letter in either case and with
blanks around is read as the same entity, of the same type. -/
theorem parses_onto_wellSpelled (v : Text.CodeText) :
    ((∃ e, parse v = .ok e) ↔ WellSpelled (canonical v)) ∧
    (¬WellSpelled (canonical v) → parse v = .error (.malformed v)) ∧
    (WellSpelled v → ∃ e, parse v = .ok e ∧ e.serialization = v) ∧
    ∀ e, parse v = .ok e →
      e.serialization = canonical v ∧
      (∀ p ∈ e.serialization, p ≠ .scalar '#' ∧ p.satisfies Text.isBlank = false) ∧
      ∀ t, Varies t e.serialization →
        parse t = .ok e ∧ (parse t).map entityType = .ok e.entityType := by
  refine ⟨⟨?_, exists_parse⟩, parse_of_not_wellSpelled, fun hv => ?_, fun e he => ?_⟩
  · rintro ⟨e, he⟩
    exact (parse_eq_ok.mp he).1
  · have hcanonical : canonical v = v := canonical_of_varies hv hv.varies
    obtain ⟨e, he⟩ := exists_parse (hcanonical.symm ▸ hv)
    exact ⟨e, he, (parse_eq_ok.mp he).2.trans hcanonical⟩
  · obtain ⟨hspelled, hserialization⟩ := parse_eq_ok.mp he
    refine ⟨hserialization, fun p hp => ?_, fun t ht => ?_⟩
    · rw [hserialization] at hp
      refine ⟨?_, hspelled.isBlank_of_mem p hp⟩
      rintro rfl
      obtain ⟨c, heq, hlow, -⟩ := hspelled.exists_of_mem _ hp
      obtain rfl := Text.CodePoint.scalar.inj heq
      exact absurd hlow (by decide)
    · have hread : parse t = .ok e := parse_of_varies he ht
      rw [hread]
      exact ⟨rfl, rfl⟩

/-- A padded item in small letters, and a variant of its serialization. -/
theorem parses_onto_wellSpelled_padded :
    let v : Text.CodeText := "\t q42\n"
    let t : Text.CodeText := " q42"
    ∃ e, parse v = .ok e ∧ e.serialization = "Q42" ∧ Varies t e.serialization ∧ parse t = .ok e ∧
      e.entityType = "item" := by
  intro v t
  obtain ⟨hread, -, -, hall⟩ := parses_onto_wellSpelled v
  obtain ⟨e, he⟩ := hread.mpr (by decide +kernel)
  obtain ⟨hspelled, -, hvariant⟩ := hall e he
  have hserialization : e.serialization = "Q42" := hspelled.trans (by decide +kernel)
  have ht : Varies t e.serialization := by
    rw [hserialization]
    exact ⟨" ", 'q', "42", [], by decide, by decide, List.forall_mem_singleton.mpr (by decide)⟩
  refine ⟨e, he, hserialization, ht, (hvariant t ht).1, ?_⟩
  rw [entityType, hserialization]
  decide +kernel

end PageInvalidation.EntityId
