import Mathlib.Data.List.Basic
import PageInvalidation.Proofs.Text.CodeText
import PageInvalidation.Text.Blank
import PageInvalidation.Text.UpperCase

/-! # Facts about upper case

Every character that the tables map to is its own upper case (`Text.upperChar_cases`); it is a capital letter of
ASCII or beyond ASCII, and never a blank. That no code is mapped twice is checked run by run: the codes that one run
maps to lie apart from those that another maps, or differ from them in parity. -/

namespace PageInvalidation.Text

/-- A code point of a capital letter of ASCII or beyond ASCII that is no blank. -/
def isCapital (n : ℕ) : Bool :=
  (0x41 ≤ n && n ≤ 0x5a || 0x80 ≤ n) && !isBlank (Char.ofNat n) && decide n.isValidChar

namespace CaseRun

variable {r r' : CaseRun} {n m : ℕ}

def low (r : CaseRun) : ℕ := (r.first + r.shift).toNat

def high (r : CaseRun) : ℕ := (r.last + r.shift).toNat

/-- The codes from `low` to `high` lie before or behind those from `a` to `b`, or they are of different parity. -/
def isApart (r : CaseRun) (a b : ℕ) (even : Bool) : Bool :=
  Nat.blt r.high a || Nat.blt b r.low ||
    (even && (r.first == r.last || r.step == 2) && (r.low + a) % 2 == 1)

/-- The codes that a run maps. -/
def codes (r : CaseRun) : List ℕ := (List.range' r.first (r.last + 1 - r.first)).filter r.holds

theorem mem_codes (h : r.holds n = true) : n ∈ r.codes := by
  have hrange := h
  simp only [holds, Bool.and_eq_true, decide_eq_true_eq] at hrange
  refine List.mem_filter.mpr ⟨List.mem_range'_1.mpr ⟨hrange.1.1, ?_⟩, h⟩
  omega

theorem ne_of_isApart {a b : ℕ} {even : Bool} (h : r.isApart a b even = true) (hn : r.holds n = true)
    (hlow : 0 ≤ r.first + r.shift) (ha : a ≤ m) (hb : m ≤ b) (heven : even = true → (m - a) % 2 = 0) :
    (n + r.shift).toNat ≠ m := by
  simp only [isApart, low, high, holds, Bool.or_eq_true, Bool.and_eq_true, Nat.blt_eq, beq_iff_eq,
    decide_eq_true_eq] at h hn
  obtain ⟨⟨hfirst, hlast⟩, hstep⟩ := hn
  rcases h with (h | h) | ⟨⟨hev, h⟩, hodd⟩
  · omega
  · omega
  · have hpar := heven hev
    rcases h with h | h
    · omega
    · rw [h] at hstep
      omega

end CaseRun

theorem upperRuns_isApart : (upperRuns.all fun r => decide (0 ≤ r.first + r.shift) &&
    (upperRuns.all fun r' => r.isApart r'.first r'.last (r'.step == 2)) &&
    upperLong.all fun e => r.isApart e.1 e.1 true) = true := by
  decide +kernel

theorem upperRuns_isCapital :
    (upperRuns.all fun r => r.codes.all fun n => isCapital (n + r.shift).toNat) = true := by
  decide +kernel

theorem upperLong_isCapital :
    (upperLong.all fun e => !e.2.isEmpty && e.2.all fun m => isCapital m && upperCodes m == [m]) = true := by
  decide +kernel

/-- What a run maps to is mapped by no run and by no long entry. -/
theorem upperCodes_of_mem_upperRuns {r : CaseRun} {n : ℕ} (hr : r ∈ upperRuns) (hn : r.holds n = true) :
    upperCodes (n + r.shift).toNat = [(n + r.shift).toNat] := by
  have hapart := List.all_eq_true.mp upperRuns_isApart r hr
  simp only [Bool.and_eq_true, decide_eq_true_eq, List.all_eq_true] at hapart
  obtain ⟨⟨hlow, hruns⟩, hlong⟩ := hapart
  have hrun : upperRuns.find? (·.holds (n + r.shift).toNat) = none := by
    refine List.find?_eq_none.mpr fun r' hr' hholds => ?_
    have hrange := hholds
    simp only [CaseRun.holds, Bool.and_eq_true, decide_eq_true_eq, beq_iff_eq] at hrange
    refine CaseRun.ne_of_isApart (hruns r' hr') hn hlow hrange.1.1 hrange.1.2 (fun heven => ?_) rfl
    rw [beq_iff_eq] at heven
    rw [← heven]
    exact hrange.2
  have hentry : upperLong.find? (·.1 == (n + r.shift).toNat) = none := by
    refine List.find?_eq_none.mpr fun e he heq => ?_
    rw [beq_iff_eq] at heq
    exact CaseRun.ne_of_isApart (hlong e he) hn hlow (Nat.le_refl _) (Nat.le_refl _) (fun _ => by omega) heq.symm
  rw [upperCodes, hrun, hentry]

/-- A code is its own upper case, or its upper case is of capitals. -/
theorem upperCodes_cases (n : ℕ) : upperCodes n = [n] ∨
    upperCodes n ≠ [] ∧ ∀ m ∈ upperCodes n, isCapital m = true ∧ upperCodes m = [m] := by
  cases hrun : upperRuns.find? (·.holds n) with
  | some r =>
    have hr : r ∈ upperRuns := List.mem_of_find?_eq_some hrun
    have hholds : r.holds n = true := by simpa using List.find?_some hrun
    have hcapital := List.all_eq_true.mp (List.all_eq_true.mp upperRuns_isCapital r hr) n (CaseRun.mem_codes hholds)
    have hcodes : upperCodes n = [(n + r.shift).toNat] := by simp [upperCodes, hrun]
    rw [hcodes]
    refine .inr ⟨List.cons_ne_nil _ _, fun m hm => ?_⟩
    rw [List.mem_singleton.mp hm]
    exact ⟨hcapital, upperCodes_of_mem_upperRuns hr hholds⟩
  | none =>
    cases hlong : upperLong.find? (·.1 == n) with
    | none => exact .inl (by simp [upperCodes, hrun, hlong])
    | some e =>
      have he := List.all_eq_true.mp upperLong_isCapital e (List.mem_of_find?_eq_some hlong)
      have hcodes : upperCodes n = e.2 := by simp [upperCodes, hrun, hlong]
      simp only [Bool.and_eq_true, List.all_eq_true, beq_iff_eq] at he
      rw [hcodes]
      exact .inr ⟨by simpa using he.1, he.2⟩

theorem toNat_ofNat {n : ℕ} (h : n.isValidChar) : (Char.ofNat n).toNat = n := by
  unfold Char.ofNat
  rw [dif_pos h]
  exact UInt32.toNat_ofNatLT

/-- **A character is its own upper case, or its upper case is of capitals.** -/
theorem upperChar_cases (c : Char) : upperChar c = [c] ∨ upperChar c ≠ [] ∧ ∀ d ∈ upperChar c,
    upperChar d = [d] ∧ isBlank d = false ∧ (0x41 ≤ d.toNat ∧ d.toNat ≤ 0x5a ∨ 0x80 ≤ d.toNat) := by
  unfold upperChar
  rcases upperCodes_cases c.toNat with h | ⟨hne, h⟩
  · left
    simp [h]
  · refine .inr ⟨by simpa using hne, fun d hd => ?_⟩
    obtain ⟨m, hm, rfl⟩ := List.mem_map.mp hd
    obtain ⟨hcapital, hupper⟩ := h m hm
    simp only [isCapital, Bool.and_eq_true, Bool.or_eq_true, decide_eq_true_eq, Bool.not_eq_true'] at hcapital
    obtain ⟨⟨hrange, hblank⟩, hvalid⟩ := hcapital
    rw [toNat_ofNat hvalid, hupper]
    exact ⟨rfl, hblank, hrange⟩

theorem isBlank_of_mem_upperChar {c d : Char} (hc : isBlank c = false) (hd : d ∈ upperChar c) : isBlank d = false := by
  rcases upperChar_cases c with h | ⟨-, h⟩
  · rw [h, List.mem_singleton] at hd
    rwa [hd]
  · exact (h d hd).2.1

theorem upperChar_ne_nil (c : Char) : upperChar c ≠ [] := by
  rcases upperChar_cases c with h | ⟨hne, -⟩
  · rw [h]
    exact List.cons_ne_nil c []
  · exact hne

theorem upperPoint_ne_nil : ∀ p : CodePoint, upperPoint p ≠ []
  | .scalar c => mt List.map_eq_nil_iff.mp (upperChar_ne_nil c)
  | .lone _ => List.cons_ne_nil _ _

theorem isBlank_of_mem_upperPoint {p q : CodePoint} (hp : p.satisfies isBlank = false) (hq : q ∈ upperPoint p) :
    q.satisfies isBlank = false := by
  cases p with
  | scalar c =>
    obtain ⟨d, hd, rfl⟩ := List.mem_map.mp hq
    exact isBlank_of_mem_upperChar hp hd
  | lone half =>
    obtain rfl := List.mem_singleton.mp hq
    rfl

theorem mem_upperPoint_of_getLast?_upper {t : CodeText} {q : CodePoint} (h : (upper t).getLast? = some q) :
    ∃ p, t.getLast? = some p ∧ q ∈ upperPoint p := by
  rcases t.eq_nil_or_concat with rfl | ⟨init, p, rfl⟩
  · cases h
  · rw [List.concat_eq_append, upper, List.flatMap_append, List.flatMap_singleton,
      List.getLast?_append_of_ne_nil _ (upperPoint_ne_nil p)] at h
    exact ⟨p, by simp, List.mem_of_getLast? h⟩

/-! ### The letters of ASCII -/

theorem upperChar_of_lt {c : Char} (h : c.toNat < 97) : upperChar c = [c] := by
  have hruns : ∀ r ∈ upperRuns, 97 ≤ r.first := by decide +kernel
  have hlong : ∀ e ∈ upperLong, 97 ≤ e.1 := by decide
  have hrun : upperRuns.find? (·.holds c.toNat) = none := List.find?_eq_none.mpr fun r hr => by
    have hfirst := hruns r hr
    simp only [CaseRun.holds, Bool.and_eq_true, decide_eq_true_eq]
    omega
  have hentry : upperLong.find? (·.1 == c.toNat) = none := List.find?_eq_none.mpr fun e he => by
    have hcode := hlong e he
    simp only [beq_iff_eq]
    omega
  rw [upperChar, upperCodes, hrun, hentry, List.map_singleton, Char.ofNat_toNat]

theorem upperChar_of_small {c : Char} (hlow : 97 ≤ c.toNat) (hhigh : c.toNat < 123) : upperChar c = [c.toUpper] := by
  have hcapitals : ∀ n : ℕ, n < 123 → 97 ≤ n → Char.ofNat ((n : Int) + -32).toNat = (Char.ofNat n).toUpper := by decide
  have hrun : upperRuns.find? (·.holds c.toNat) = some ⟨97, 122, 1, -32⟩ := by
    rw [upperRuns, List.find?_cons_of_pos]
    simp only [CaseRun.holds, Bool.and_eq_true, decide_eq_true_eq, beq_iff_eq]
    omega
  have hcapital := hcapitals c.toNat hhigh hlow
  rw [Char.ofNat_toNat] at hcapital
  rw [upperChar, upperCodes, hrun, ← hcapital, List.map_singleton]

theorem toUpper_cases (c : Char) : c.toUpper = c ∨ 97 ≤ c.toNat ∧ c.toNat < 123 := by
  unfold Char.toUpper
  split
  · rename_i hsmall
    exact .inr ⟨UInt32.le_iff_toNat_le.mp hsmall.1, Nat.lt_succ_of_le (UInt32.le_iff_toNat_le.mp hsmall.2)⟩
  · exact .inl rfl

theorem upperChar_of_toUpper_lt {c : Char} (h : c.toUpper.toNat < 97) : upperChar c = [c.toUpper] := by
  rcases toUpper_cases c with hc | ⟨hlow, hhigh⟩
  · rw [hc] at h ⊢
    exact upperChar_of_lt h
  · exact upperChar_of_small hlow hhigh

end PageInvalidation.Text
