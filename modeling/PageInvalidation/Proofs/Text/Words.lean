import Mathlib.Data.List.Basic
import PageInvalidation.Text.Blank

/-! # Facts about words

Words that are joined by single blanks are the words of the text that they make (`words_intercalate`), and what holds
of the characters of a text that are not blank holds of all in its words (`words_forall`). -/

namespace PageInvalidation.Text

/-! ### Printed characters -/

/-- A printed character of the ASCII range. -/
def isGraphic (c : Char) : Bool := 32 < c.toNat && c.toNat < 127

theorem isBlank_of_isGraphic {c : Char} (h : isGraphic c = true) : isBlank c = false := by
  rw [isGraphic, Bool.and_eq_true, decide_eq_true_eq, decide_eq_true_eq] at h
  simp only [isBlank, isWhiteSpace, Bool.or_eq_false_iff, Bool.and_eq_false_iff, decide_eq_false_iff_not,
    beq_eq_false_iff_ne, ne_eq]
  omega

/-! ### Joining words -/

section Words

variable {α : Type} {p : α → Bool} {sep : α}

theorem intercalate_cons_cons (sep : α) (w w' : List α) (ws : List (List α)) :
    List.intercalate [sep] (w :: w' :: ws) = w ++ sep :: List.intercalate [sep] (w' :: ws) := by
  simp [List.intercalate]

theorem intercalate_append (sep : α) (u w : List α) (ws : List (List α)) :
    List.intercalate [sep] ((u ++ w) :: ws) = u ++ List.intercalate [sep] (w :: ws) := by
  cases ws <;> simp [List.intercalate]

theorem mem_intercalate {c : α} : ∀ {ws : List (List α)}, c ∈ List.intercalate [sep] ws → c = sep ∨ ∃ w ∈ ws, c ∈ w
  | [], h => by simp [List.intercalate] at h
  | [w], h => .inr ⟨w, List.mem_cons_self, by simpa [List.intercalate] using h⟩
  | w :: w' :: ws, h => by
    rw [intercalate_cons_cons, List.mem_append, List.mem_cons] at h
    rcases h with h | h | h
    · exact .inr ⟨w, List.mem_cons_self, h⟩
    · exact .inl h
    · rcases mem_intercalate h with h | ⟨v, hv, h⟩
      · exact .inl h
      · exact .inr ⟨v, List.mem_cons_of_mem w hv, h⟩

/-! ### Scanning for words -/

theorem foldr_wordStep_append {w : List α} (hw : ∀ c ∈ w, p c = false) (s : List α) :
    (w ++ s).foldr (wordStep p) ([], []) =
      (w ++ (s.foldr (wordStep p) ([], [])).1, (s.foldr (wordStep p) ([], [])).2) := by
  induction w with
  | nil => rfl
  | cons c w ih =>
    have hc : p c = false := hw c List.mem_cons_self
    rw [List.cons_append, List.foldr_cons, ih fun c hc => hw c (List.mem_cons_of_mem _ hc)]
    simp [wordStep, hc]

theorem words_of_not_blank {w : List α} (hw : w ≠ []) (hblank : ∀ c ∈ w, p c = false) : words p w = [w] := by
  have hscan := foldr_wordStep_append hblank []
  rw [List.append_nil] at hscan
  simp [words, hscan, consWord, hw]

theorem words_append_blank (hsep : p sep = true) {w : List α} (hw : w ≠ []) (hblank : ∀ c ∈ w, p c = false)
    (s : List α) : words p (w ++ sep :: s) = w :: words p s := by
  have hscan := foldr_wordStep_append hblank (sep :: s)
  simp [words, hscan, wordStep, hsep, consWord, hw]

/-- **The words of words that are joined.** -/
theorem words_intercalate (hsep : p sep = true) : ∀ {ws : List (List α)}, (∀ w ∈ ws, w ≠ [] ∧ ∀ c ∈ w, p c = false) →
    words p (List.intercalate [sep] ws) = ws
  | [], _ => rfl
  | [w], h => by
    obtain ⟨hw, hblank⟩ := h w List.mem_cons_self
    simpa [List.intercalate] using words_of_not_blank hw hblank
  | w :: w' :: ws, h => by
    obtain ⟨hw, hblank⟩ := h w List.mem_cons_self
    have hrest := words_intercalate hsep fun v hv => h v (List.mem_cons_of_mem w hv)
    rw [intercalate_cons_cons, words_append_blank hsep hw hblank, hrest]

theorem mem_consWord {w word : List α} {rest : List (List α)} :
    w ∈ consWord word rest ↔ w = word ∧ word ≠ [] ∨ w ∈ rest := by
  unfold consWord
  split
  · rename_i hempty
    simp [List.isEmpty_iff.mp hempty]
  · rename_i hempty
    have hne : word ≠ [] := by simpa using hempty
    simp [hne]

/-- What holds of the characters of a text that are not blank holds of all in the words that are scanned. -/
theorem foldr_wordStep_forall {q : α → Prop} : ∀ {s : List α}, (∀ c ∈ s, p c = false → q c) →
    (∀ c ∈ (s.foldr (wordStep p) ([], [])).1, q c) ∧
      ∀ w ∈ (s.foldr (wordStep p) ([], [])).2, w ≠ [] ∧ ∀ c ∈ w, q c
  | [], _ => by simp
  | c :: s, h => by
    obtain ⟨hword, hwords⟩ := foldr_wordStep_forall fun d hd => h d (List.mem_cons_of_mem c hd)
    rw [List.foldr_cons, wordStep]
    split
    · refine ⟨by simp, fun w hw => ?_⟩
      rcases mem_consWord.mp hw with ⟨rfl, hne⟩ | hw
      · exact ⟨hne, hword⟩
      · exact hwords w hw
    · rename_i hblank
      have hc : q c := h c List.mem_cons_self (by simpa using hblank)
      refine ⟨fun d hd => ?_, hwords⟩
      rcases List.mem_cons.mp hd with rfl | hd
      · exact hc
      · exact hword d hd

theorem words_forall {q : α → Prop} {s w : List α} (h : ∀ c ∈ s, p c = false → q c) (hw : w ∈ words p s) :
    w ≠ [] ∧ ∀ c ∈ w, q c := by
  obtain ⟨hword, hwords⟩ := foldr_wordStep_forall h
  rcases mem_consWord.mp hw with ⟨rfl, hne⟩ | hw
  · exact ⟨hne, hword⟩
  · exact hwords w hw

end Words

end PageInvalidation.Text
