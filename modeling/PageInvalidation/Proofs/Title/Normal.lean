import PageInvalidation.Proofs.Text.CodeText
import PageInvalidation.Proofs.Text.UpperCase
import PageInvalidation.Proofs.Text.Words
import PageInvalidation.Title.Basic

/-! # Normal forms of titles

A normal form is words separated by single spaces, without an underscore or an illegal character, whose first
character is its own upper case (`Title.IsNormal`). Normalizing gives a normal form (`Title.isNormal_of_normalize`),
and one is normalized to itself if it is not too long (`Title.normalize_of_isNormal`). It can be too long: the limit
is on the text before its first character is put in upper case, and upper case can have more bytes. -/

namespace PageInvalidation.Title

open Text (CodePoint CodeText isBlank upperChar upperPoint)

variable {text r s : CodeText} {cs : List Char}

/-- A word of a title: some characters, none blank and none an underscore. -/
def IsWord (w : CodeText) : Prop := w ≠ [] ∧ ∀ p ∈ w, p.satisfies isBlank = false ∧ p ≠ .scalar '_'

/-- A normal form: words separated by single spaces, no illegal character, and a first character that is its own
upper case. -/
structure IsNormal (s : CodeText) : Prop where
  words : ∃ ws, ws ≠ [] ∧ (∀ w ∈ ws, IsWord w) ∧ s = List.intercalate [.scalar ' '] ws
  legal : ∀ p ∈ s, p.satisfies isIllegal = false
  capital : ∀ p ∈ s.head?, upperPoint p = [p]

/-- The words of a text, underscores taken for blanks. -/
theorem exists_words (s : CodeText) :
    ∃ ws, (∀ w ∈ ws, IsWord w) ∧ spaced s = List.intercalate [.scalar ' '] ws := by
  refine ⟨_, fun w hw => ?_, rfl⟩
  refine Text.words_forall (fun p hp hblank => ⟨hblank, ?_⟩) hw
  obtain ⟨q, -, rfl⟩ := List.mem_map.mp hp
  split
  · decide
  · assumption

theorem spaced_intercalate {ws : List CodeText} (hws : ∀ w ∈ ws, IsWord w) :
    spaced (List.intercalate [.scalar ' '] ws) = List.intercalate [.scalar ' '] ws := by
  have hscore : ∀ p ∈ List.intercalate [.scalar ' '] ws, p ≠ .scalar '_' := by
    intro p hp
    rcases Text.mem_intercalate hp with rfl | ⟨w, hw, hp⟩
    · decide
    · exact ((hws w hw).2 p hp).2
  have hblank : ∀ w ∈ ws, w ≠ [] ∧ ∀ p ∈ w, p.satisfies isBlank = false := fun w hw =>
    ⟨(hws w hw).1, fun p hp => ((hws w hw).2 p hp).1⟩
  rw [spaced, List.map_congr_left fun p hp => if_neg (hscore p hp), List.map_id', Text.words_intercalate rfl hblank]

theorem IsWord.spaced_eq {w : CodeText} (h : IsWord w) : spaced w = w := by
  have hone : spaced (List.intercalate [.scalar ' '] [w]) = List.intercalate [.scalar ' '] [w] :=
    spaced_intercalate fun v hv => List.mem_singleton.mp hv ▸ h
  simpa [List.intercalate] using hone

theorem isIllegal_eq_false_of_le {c : Char} (h : 0x41 ≤ c.toNat ∧ c.toNat ≤ 0x5a ∨ 0x80 ≤ c.toNat) :
    isIllegal c = false := by
  have hmem : c ∉ ['#', '<', '>', '[', ']', '|', '\x7b', '\x7d', '\x7f'] := by
    intro hmem
    simp only [List.mem_cons, List.not_mem_nil, or_false] at hmem
    rcases hmem with rfl | rfl | rfl | rfl | rfl | rfl | rfl | rfl | rfl <;> revert h <;> decide
  have hlow : ¬c.toNat < 0x20 := by omega
  simp [isIllegal, hmem, hlow]

theorem upperChar_forall {c : Char} (hblank : isBlank c = false) (hscore : c ≠ '_') (hlegal : isIllegal c = false) :
    upperChar c ≠ [] ∧
      ∀ d ∈ upperChar c, upperChar d = [d] ∧ (isBlank d = false ∧ d ≠ '_') ∧ isIllegal d = false := by
  rcases Text.upperChar_cases c with h | ⟨hne, h⟩
  · refine ⟨by simp [h], fun d hd => ?_⟩
    rw [h, List.mem_singleton] at hd
    subst hd
    exact ⟨h, ⟨hblank, hscore⟩, hlegal⟩
  · refine ⟨hne, fun d hd => ?_⟩
    obtain ⟨hupper, hdblank, hrange⟩ := h d hd
    refine ⟨hupper, ⟨hdblank, ?_⟩, isIllegal_eq_false_of_le hrange⟩
    rintro rfl
    revert hrange
    decide

theorem upperPoint_forall {p : CodePoint} (hblank : p.satisfies isBlank = false) (hscore : p ≠ .scalar '_')
    (hlegal : p.satisfies isIllegal = false) :
    ∀ q ∈ upperPoint p, upperPoint q = [q] ∧ (q.satisfies isBlank = false ∧ q ≠ .scalar '_') ∧
      q.satisfies isIllegal = false := by
  intro q hq
  cases p with
  | lone half =>
    obtain rfl := List.mem_singleton.mp hq
    exact ⟨rfl, ⟨rfl, hscore⟩, rfl⟩
  | scalar c =>
    obtain ⟨d, hd, rfl⟩ := List.mem_map.mp hq
    obtain ⟨hupper, ⟨hdblank, hdscore⟩, hdlegal⟩ :=
      (upperChar_forall hblank (fun hc => hscore (congrArg CodePoint.scalar hc)) hlegal).2 d hd
    exact ⟨congrArg CodeText.ofList hupper, ⟨hdblank, fun h => hdscore (CodePoint.scalar.inj h)⟩, hdlegal⟩

theorem isNormal_capitalised {ws : List CodeText} (hne : ws ≠ []) (hws : ∀ w ∈ ws, IsWord w)
    (hlegal : ∀ p ∈ List.intercalate [.scalar ' '] ws, p.satisfies isIllegal = false) :
    IsNormal (capitalised (List.intercalate [.scalar ' '] ws)) := by
  obtain ⟨w, ws, rfl⟩ := List.exists_cons_of_ne_nil hne
  obtain ⟨hw, hrest⟩ := List.forall_mem_cons.mp hws
  obtain ⟨p, w, rfl⟩ := List.exists_cons_of_ne_nil hw.1
  have hfirst : List.intercalate [.scalar ' '] ((p :: w) :: ws) = p :: List.intercalate [.scalar ' '] (w :: ws) :=
    Text.intercalate_append _ [p] w ws
  rw [hfirst] at hlegal ⊢
  obtain ⟨hp, htail⟩ := List.forall_mem_cons.mp hlegal
  obtain ⟨hpblank, hpscore⟩ := hw.2 p List.mem_cons_self
  have hupper := Text.upperPoint_ne_nil p
  have hall := upperPoint_forall hpblank hpscore hp
  refine ⟨⟨(upperPoint p ++ w) :: ws, List.cons_ne_nil _ _, ?_, (Text.intercalate_append _ _ _ _).symm⟩, ?_, ?_⟩
  · refine List.forall_mem_cons.mpr ⟨⟨by simp [hupper], fun q hq => ?_⟩, hrest⟩
    rcases List.mem_append.mp hq with hq | hq
    · exact (hall q hq).2.1
    · exact hw.2 q (List.mem_cons_of_mem p hq)
  · intro q hq
    rcases List.mem_append.mp hq with hq | hq
    · exact (hall q hq).2.2
    · exact htail q hq
  · obtain ⟨q, qs, hqs⟩ := List.exists_cons_of_ne_nil hupper
    intro e he
    rw [capitalised, hqs, List.cons_append, List.head?_cons, Option.mem_some_iff] at he
    subst he
    exact (hall q (hqs ▸ List.mem_cons_self)).1

/-- What is in normal form keeps its words and its first character. -/
theorem IsNormal.spaced_eq (h : IsNormal s) : spaced s = s := by
  obtain ⟨ws, -, hws, rfl⟩ := h.words
  exact spaced_intercalate hws

theorem IsNormal.capitalised_eq (h : IsNormal s) : capitalised s = s := by
  cases s with
  | nil => rfl
  | cons p rest => rw [capitalised, h.capital p rfl, List.singleton_append]

theorem IsNormal.ne_nil (h : IsNormal s) : s ≠ [] := by
  obtain ⟨ws, hne, hws, rfl⟩ := h.words
  obtain ⟨w, ws, rfl⟩ := List.exists_cons_of_ne_nil hne
  intro hnil
  have hfirst := Text.intercalate_append (.scalar ' ') w [] ws
  rw [List.append_nil, hnil] at hfirst
  exact (hws w List.mem_cons_self).1 (List.append_eq_nil_iff.mp hfirst.symm).1

theorem capitalised_ofList : ∀ cs : List Char, ∃ cs', capitalised (.ofList cs) = .ofList cs'
  | [] => ⟨[], rfl⟩
  | c :: cs => ⟨upperChar c ++ cs, (CodeText.ofList_append _ _).symm⟩

/-- **When a title has a normal form**: with its words separated by single spaces it is not empty, has no illegal
character, can be encoded and is within the limit. Its first character is put in upper case after that. -/
theorem normalize_eq_ok_iff : normalize text = .ok r ↔
    spaced text ≠ [] ∧ (∀ p ∈ spaced text, p.satisfies isIllegal = false) ∧
      (∃ cs, spaced text = .ofList cs ∧ Text.Utf8.size cs ≤ maxBytes) ∧ r = capitalised (spaced text) := by
  simp only [normalize]
  constructor
  · intro h
    split at h
    · cases h
    rename_i hempty
    split at h
    · cases h
    rename_i hillegal
    split at h
    · cases h
    rename_i cs hcs
    split at h
    · cases h
    rename_i hsize
    cases h
    exact ⟨by simpa using hempty, by simpa using hillegal,
      ⟨cs, Text.Utf8.writable_eq_ok_iff.mp hcs, Nat.not_lt.mp hsize⟩, rfl⟩
  · rintro ⟨hne, hlegal, ⟨cs, hcs, hsize⟩, rfl⟩
    rw [if_neg (by simpa using hne), if_neg (by simpa using hlegal), Text.Utf8.writable_eq_ok_iff.mpr hcs]
    exact if_neg (Nat.not_lt.mpr hsize)

/-- **Normalizing gives a normal form**, which has no lone surrogates. -/
theorem isNormal_of_normalize (h : normalize text = .ok r) : IsNormal r ∧ ∃ cs, r = .ofList cs := by
  obtain ⟨hne, hlegal, ⟨cs, hcs, -⟩, rfl⟩ := normalize_eq_ok_iff.mp h
  obtain ⟨ws, hws, hspaced⟩ := exists_words text
  refine ⟨?_, hcs ▸ capitalised_ofList cs⟩
  rw [hspaced] at hne hlegal ⊢
  have hwords : ws ≠ [] := by
    rintro rfl
    exact hne rfl
  exact isNormal_capitalised hwords hws hlegal

/-- **A normal form is normalized to itself unless it is too long.** -/
theorem normalize_of_isNormal (h : IsNormal (.ofList cs)) : normalize (.ofList cs) =
    if Text.Utf8.size cs ≤ maxBytes then .ok (.ofList cs) else .error (.tooLong (.ofList cs)) := by
  have hlegal : ¬(CodeText.ofList cs).any (·.satisfies isIllegal) = true := by
    rw [Bool.not_eq_true, List.any_eq_false]
    intro p hp hillegal
    exact absurd hillegal (by simp [h.legal p hp])
  have hne : ¬(CodeText.ofList cs).isEmpty = true := by simpa using h.ne_nil
  simp only [normalize, h.spaced_eq, if_neg hne, if_neg hlegal, h.capitalised_eq, Text.Utf8.writable_ofList]
  rw [← ite_not]
  simp only [Nat.not_lt]

theorem normalize_idem_iff (h : normalize text = .ok (.ofList cs)) :
    normalize (.ofList cs) = .ok (.ofList cs) ↔ Text.Utf8.size cs ≤ maxBytes := by
  rw [normalize_of_isNormal (isNormal_of_normalize h).1]
  simp

end PageInvalidation.Title
