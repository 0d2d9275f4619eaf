import Mathlib.Tactic.Ring
import PageInvalidation.Proofs.Text.Numeral

/-! # Texts of numerals

A numeral that is written with digits, perhaps a fraction and perhaps an exponent is taken apart into just
these (`NumeralText.read?_chars`). -/

namespace PageInvalidation.Text

/-- The digit characters that a numeral is written with; an exponent comes with its sign. -/
structure NumeralText where
  whole : List Char
  fraction : Option (List Char)
  exponent : Option (Bool × List Char)
  whole_ne_nil : whole ≠ []
  isDigit_whole : ∀ c ∈ whole, c.isDigit = true
  isDigit_fraction : ∀ f ∈ fraction, ∀ c ∈ f, c.isDigit = true
  exponent_ne_nil : ∀ e ∈ exponent, e.2 ≠ []
  isDigit_exponent : ∀ e ∈ exponent, ∀ c ∈ e.2, c.isDigit = true

/-- The character of a sign. -/
def signChar (negative : Bool) : Char := if negative then '-' else '+'

namespace NumeralText

def fractionChars : Option (List Char) → List Char
  | none => []
  | some f => '.' :: f

def exponentChars : Option (Bool × List Char) → List Char
  | none => []
  | some (negative, ds) => 'e' :: signChar negative :: ds

/-- The characters of a numeral without a sign. -/
def chars (t : NumeralText) : List Char := t.whole ++ (fractionChars t.fraction ++ exponentChars t.exponent)

/-- The characters of a numeral. -/
def signedChars (negative : Bool) (t : NumeralText) : List Char := (if negative then ['-'] else []) ++ t.chars

/-- What a numeral is taken apart into. -/
def numeral (negative : Bool) (t : NumeralText) : Numeral where
  sign := if negative then some '-' else none
  whole := t.whole.map digitValue
  fraction := t.fraction.map (List.map digitValue)
  exponent := t.exponent.map fun e => signed (some (signChar e.1)) (ofDigits (e.2.map digitValue))

variable {t : NumeralText} {negative : Bool} {c : Char} {s : List Char}

theorem spanSign_of_isDigit (hc : c.isDigit = true) (s : List Char) :
    spanSign (c :: s) = (none, c :: s) := by
  rw [spanSign, (not_isPadding_or_sign (.inl hc)).2, if_neg Bool.false_ne_true]

theorem spanSign_signChar (negative : Bool) (s : List Char) :
    spanSign (signChar negative :: s) = (some (signChar negative), s) := by
  cases negative <;> rfl

theorem readExponent?_exponentChars {e : Option (Bool × List Char)} (hne : ∀ p ∈ e, p.2 ≠ [])
    (hdigits : ∀ p ∈ e, ∀ c ∈ p.2, c.isDigit = true) : Numeral.readExponent? (exponentChars e) =
      some (e.map fun p => signed (some (signChar p.1)) (ofDigits (p.2.map digitValue))) := by
  cases e with
  | none => rfl
  | some p =>
    have hp := spanDigits_of_isDigit (hdigits p rfl)
    have hne' : (p.2.map digitValue).isEmpty = false := by simpa using hne p rfl
    rw [exponentChars, Numeral.readExponent?, if_pos (by decide), spanSign_signChar]
    dsimp only
    rw [hp]
    dsimp only
    rw [hne']
    rfl

theorem head?_exponentChars {e : Option (Bool × List Char)} : ∀ c ∈ (exponentChars e).head?, c = 'e' := by
  cases e with
  | none => simp [exponentChars]
  | some p => simp [exponentChars]

theorem spanFraction_chars {f : Option (List Char)} {e : Option (Bool × List Char)}
    (hdigits : ∀ g ∈ f, ∀ c ∈ g, c.isDigit = true) :
    Numeral.spanFraction (fractionChars f ++ exponentChars e) =
      (f.map (List.map digitValue), exponentChars e) := by
  have hhead : ∀ c ∈ (exponentChars e).head?, c.isDigit = false := fun c hc => by
    rw [head?_exponentChars c hc]
    decide
  cases f with
  | none =>
    cases e with
    | none => rfl
    | some p => rfl
  | some g =>
    have hg := spanDigits_append hhead (hdigits g rfl)
    rw [fractionChars, List.cons_append, Numeral.spanFraction, hg]
    rfl

/-- **A numeral is taken apart into what it is written with.** -/
theorem read?_chars (negative : Bool) (t : NumeralText) :
    Numeral.read? (t.signedChars negative) = some (t.numeral negative) := by
  have hhead : ∀ c ∈ (fractionChars t.fraction ++ exponentChars t.exponent).head?, c.isDigit = false := by
    intro c hc
    cases hf : t.fraction with
    | none =>
      rw [hf, fractionChars, List.nil_append] at hc
      rw [head?_exponentChars c hc]
      decide
    | some f =>
      rw [hf] at hc
      cases hc
      decide
  have hsign : spanSign (t.signedChars negative) = (if negative then some '-' else none, t.chars) := by
    cases negative with
    | true => rfl
    | false =>
      obtain ⟨c, s, hs⟩ := List.exists_cons_of_ne_nil t.whole_ne_nil
      have hchars : t.signedChars false = c :: (s ++ (fractionChars t.fraction ++ exponentChars t.exponent)) := by
        rw [signedChars, chars, hs]
        rfl
      have hc := t.isDigit_whole c (by rw [hs]; exact List.mem_cons_self)
      rw [hchars, spanSign_of_isDigit hc, ← hchars]
      rfl
  have hwhole := spanDigits_append hhead t.isDigit_whole
  unfold Numeral.read?
  rw [hsign]
  dsimp only
  rw [chars, hwhole]
  dsimp only
  rw [spanFraction_chars t.isDigit_fraction]
  dsimp only
  rw [readExponent?_exponentChars t.exponent_ne_nil t.isDigit_exponent]
  rfl

end NumeralText

theorem signed_natAbs {sign : Option Char} {n : ℤ} (h : sign = some '-' ↔ n < 0) :
    signed sign n.natAbs = n := by
  unfold signed
  by_cases hneg : n < 0
  · rw [if_pos (beq_iff_eq.mpr (h.mpr hneg))]
    omega
  · rw [if_neg fun hsign => hneg (h.mp (beq_iff_eq.mp hsign))]
    omega

/-! ### Digits and zeros -/

theorem ofDigits_append_append : ∀ ds ds' : List ℕ,
    ofDigits (ds ++ ds') = ofDigits ds * 10 ^ ds'.length + ofDigits ds'
  | ds, [] => by simp [ofDigits]
  | ds, d :: ds' => by
    have hone : ofDigits (d :: ds') = ofDigits [d] * 10 ^ ds'.length + ofDigits ds' :=
      ofDigits_append_append [d] ds'
    have hd : ofDigits [d] = d := by simp [ofDigits]
    rw [List.append_cons, ofDigits_append_append (ds ++ [d]), ofDigits_append, hone, hd, List.length_cons,
      pow_succ]
    ring

theorem ofDigits_cons (d : ℕ) (ds : List ℕ) : ofDigits (d :: ds) = d * 10 ^ ds.length + ofDigits ds := by
  have hd : ofDigits [d] = d := by simp [ofDigits]
  rw [← List.singleton_append, ofDigits_append_append, hd]

theorem ofDigits_lt : ∀ {ds : List ℕ}, (∀ d ∈ ds, d < 10) → ofDigits ds < 10 ^ ds.length
  | [], _ => by decide
  | d :: ds, h => by
    obtain ⟨hd, hds⟩ := List.forall_mem_cons.mp h
    have ih := ofDigits_lt hds
    have hle : d * 10 ^ ds.length ≤ 9 * 10 ^ ds.length := Nat.mul_le_mul_right _ (by omega)
    rw [ofDigits_cons, List.length_cons, pow_succ]
    omega

theorem ofDigits_replicate_zero (n : ℕ) : ofDigits (List.replicate n 0) = 0 := by
  induction n with
  | zero => rfl
  | succ n ih => rw [List.replicate_succ', ofDigits_append, ih]

theorem head?_toDigits_ne_zero {n : ℕ} (hn : 0 < n) :
    ((Nat.toDigits 10 n).map digitValue).head? ≠ some 0 := by
  induction n using Nat.strongRecOn with
  | _ n ih =>
    by_cases hlt : n < 10
    · rw [Nat.toDigits_of_lt_base hlt, List.map_singleton, digitValue_digitChar hlt]
      simpa using hn.ne'
    · have hne : (Nat.toDigits 10 (n / 10)).map digitValue ≠ [] := by simp [Nat.toDigits_ne_nil]
      rw [Nat.toDigits_of_base_le (by omega) (by omega), List.map_append, List.head?_append]
      have hhead := ih (n / 10) (by omega) (by omega)
      obtain ⟨d, ds, hds⟩ := List.exists_cons_of_ne_nil hne
      rw [hds] at hhead ⊢
      exact hhead

end PageInvalidation.Text
