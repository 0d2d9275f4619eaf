import Mathlib.Algebra.Order.Field.Power
import Mathlib.Data.Nat.Log
import Mathlib.Data.Rat.Cast.Order
import Mathlib.Tactic.FieldSimp
import Mathlib.Tactic.Linarith
import Mathlib.Tactic.Positivity
import Mathlib.Tactic.Ring
import PageInvalidation.Binary64.Basic

/-! # Rounding to binary floating-point numbers

The binary logarithm and the rounded quotient are what their names say, as statements about rational numbers:
`two_zpow_floorLog2_le` and `lt_two_zpow_floorLog2`, `abs_sub_roundDiv_le`. Rounding a quotient therefore
depends on its value only (`ofRatio_congr`). -/

namespace PageInvalidation.Binary64

variable {num den num' den' m : ℕ} {k : ℤ}

/-! ### Powers with exponents of both signs -/

/-- A quotient with a power of the base moved to where its exponent is natural. -/
theorem scaled_div {b : ℕ} (hb : 0 < b) (num den : ℕ) (k : ℤ) :
    ((num * Nat.pow b (-k).toNat : ℕ) : ℚ) / ((den * Nat.pow b k.toNat : ℕ) : ℚ) =
      (num : ℚ) / den / (b : ℚ) ^ k := by
  have hb' : (b : ℚ) ≠ 0 := by exact_mod_cast hb.ne'
  rcases le_total 0 k with h | h
  · obtain ⟨n, rfl⟩ := Int.eq_ofNat_of_zero_le h
    have h0 : (-(n : ℤ)).toNat = 0 := by omega
    simp [h0, div_div]
  · obtain ⟨n, hn⟩ := Int.eq_ofNat_of_zero_le (neg_nonneg.mpr h)
    have h0 : k.toNat = 0 := by omega
    have hk : k = -(n : ℤ) := by omega
    subst hk
    simp [h0, mul_div_right_comm]

/-! ### The binary logarithm -/

theorem two_zpow_log2_le (hn : 0 < num) : (2 : ℚ) ^ (num.log2 : ℤ) ≤ num := by
  rw [zpow_natCast]
  exact_mod_cast Nat.log2_self_le hn.ne'

theorem lt_two_zpow_log2 (num : ℕ) : (num : ℚ) < 2 ^ (num.log2 + 1 : ℤ) := by
  have h : num < 2 ^ (num.log2 + 1) := Nat.lt_log2_self
  exact_mod_cast h

theorem two_zpow_le_iff (hd : 0 < den) : (2 : ℚ) ^ k ≤ num / den ↔
    den * Nat.pow 2 k.toNat ≤ num * Nat.pow 2 (-k).toNat := by
  have hpos : (0 : ℚ) < ((den * Nat.pow 2 k.toNat : ℕ) : ℚ) := by
    exact_mod_cast Nat.mul_pos hd (Nat.pow_pos (by omega))
  have h := scaled_div (b := 2) (by omega) num den k
  rw [← Nat.cast_le (α := ℚ), ← one_le_div hpos, h, one_le_div (by positivity)]
  norm_cast

/-- The binary logarithm rounded down. -/
theorem floorLog2_spec (hn : 0 < num) (hd : 0 < den) :
    (2 : ℚ) ^ floorLog2 num den ≤ num / den ∧ (num : ℚ) / den < 2 ^ (floorLog2 num den + 1) := by
  have hd' : (0 : ℚ) < den := by exact_mod_cast hd
  have hnum := two_zpow_log2_le hn
  have hnum' := lt_two_zpow_log2 num
  have hden := two_zpow_log2_le hd
  have hden' := lt_two_zpow_log2 den
  have hupper : (num : ℚ) / den < 2 ^ ((num.log2 : ℤ) - den.log2 + 1) := by
    have h := div_lt_div₀ hnum' hden (by positivity) (by positivity)
    rwa [← zpow_sub₀ two_ne_zero, add_sub_right_comm] at h
  have hlower : (2 : ℚ) ^ ((num.log2 : ℤ) - den.log2 - 1) ≤ num / den := by
    have h := div_le_div₀ (Nat.cast_nonneg num) hnum hd' hden'.le
    rwa [← zpow_sub₀ two_ne_zero, ← sub_sub] at h
  unfold floorLog2
  dsimp only
  split
  · rename_i h
    exact ⟨(two_zpow_le_iff hd).mpr h, hupper⟩
  · rename_i h
    rw [sub_add_cancel]
    exact ⟨hlower, lt_of_not_ge fun hle => h ((two_zpow_le_iff hd).mp hle)⟩

theorem floorLog2_eq (hn : 0 < num) (hd : 0 < den) (hle : (2 : ℚ) ^ k ≤ num / den)
    (hlt : (num : ℚ) / den < 2 ^ (k + 1)) : floorLog2 num den = k := by
  obtain ⟨hle', hlt'⟩ := floorLog2_spec hn hd
  have h1 := (zpow_lt_zpow_iff_right₀ (by norm_num : (1 : ℚ) < 2)).mp (hle.trans_lt hlt')
  have h2 := (zpow_lt_zpow_iff_right₀ (by norm_num : (1 : ℚ) < 2)).mp (hle'.trans_lt hlt)
  omega

/-! ### Rounded quotients -/

/-- A rounded quotient is at most one half away. -/
theorem roundDiv_spec (num : ℕ) (hd : 0 < den) :
    2 * num ≤ (2 * roundDiv num den + 1) * den ∧ 2 * roundDiv num den * den ≤ 2 * num + den := by
  have hdiv := Nat.div_add_mod num den
  have hmod := Nat.mod_lt num hd
  unfold roundDiv
  dsimp only
  generalize num / den = q at *
  generalize num % den = r at *
  split
  · constructor <;> nlinarith
  · split
    · constructor <;> nlinarith
    · split
      · constructor <;> nlinarith
      · constructor <;> nlinarith

theorem roundDiv_eq (hd : 0 < den) (h : |(num : ℚ) / den - m| < 1 / 2) : roundDiv num den = m := by
  have hd' : (0 : ℚ) < den := by exact_mod_cast hd
  obtain ⟨hle, hge⟩ := roundDiv_spec num hd
  obtain ⟨hlow, hhigh⟩ := abs_lt.mp h
  rw [lt_sub_iff_add_lt, lt_div_iff₀ hd'] at hlow
  rw [sub_lt_iff_lt_add, div_lt_iff₀ hd'] at hhigh
  have hlow' : 2 * m * den < 2 * num + den := by
    have : (2 * m * den : ℚ) < 2 * num + den := by linarith
    exact_mod_cast this
  have hhigh' : 2 * num < (2 * m + 1) * den := by
    have : (2 * num : ℚ) < (2 * m + 1) * den := by linarith
    exact_mod_cast this
  have h1 : 2 * m < 2 * roundDiv num den + 2 := by
    by_contra hc
    nlinarith
  have h2 : 2 * roundDiv num den < 2 * m + 2 := by
    by_contra hc
    nlinarith
  omega

theorem roundDiv_le (hd : 0 < den) (h : (num : ℚ) / den < m) : roundDiv num den ≤ m := by
  have hd' : (0 : ℚ) < den := by exact_mod_cast hd
  have hge := (roundDiv_spec num hd).2
  rw [div_lt_iff₀ hd'] at h
  have h' : num < m * den := by exact_mod_cast h
  by_contra hc
  nlinarith

theorem roundDiv_mul_left {c : ℕ} (hc : 0 < c) (num den : ℕ) :
    roundDiv (c * num) (c * den) = roundDiv num den := by
  unfold roundDiv
  rw [Nat.mul_div_mul_left num den hc, Nat.mul_mod_mul_left]
  have h1 : 2 * (c * (num % den)) < c * den ↔ 2 * (num % den) < den := by
    rw [Nat.mul_left_comm]
    exact Nat.mul_lt_mul_left hc
  have h2 : c * den < 2 * (c * (num % den)) ↔ den < 2 * (num % den) := by
    rw [Nat.mul_left_comm 2]
    exact Nat.mul_lt_mul_left hc
  simp only [h1, h2]

/-! ### Rounding to a floating-point number -/

theorem ofRatio_mul_left {c : ℕ} (hc : 0 < c) (negative : Bool) (num : ℕ) (hd : 0 < den) :
    ofRatio ⟨negative, c * num, c * den⟩ = ofRatio ⟨negative, num, den⟩ := by
  rcases Nat.eq_zero_or_pos num with rfl | hn
  · simp [ofRatio]
  · have hvalue : ((c * num : ℕ) : ℚ) / ((c * den : ℕ) : ℚ) = num / den := by
      push_cast
      exact mul_div_mul_left _ _ (by exact_mod_cast hc.ne')
    obtain ⟨hle, hlt⟩ := floorLog2_spec hn hd
    have hlog : floorLog2 (c * num) (c * den) = floorLog2 num den :=
      floorLog2_eq (Nat.mul_pos hc hn) (Nat.mul_pos hc hd) (hvalue ▸ hle) (hvalue ▸ hlt)
    have hzero : (c * num == 0) = (num == 0) := by
      rw [Bool.eq_iff_iff, beq_iff_eq, beq_iff_eq, Nat.mul_eq_zero]
      exact or_iff_right hc.ne'
    unfold ofRatio
    simp only [hlog, hzero, Nat.mul_assoc, roundDiv_mul_left hc]

/-- **Rounding a quotient depends on its value only.** -/
theorem ofRatio_congr (negative : Bool) (hd : 0 < den) (hd' : 0 < den')
    (h : num * den' = num' * den) : ofRatio ⟨negative, num, den⟩ = ofRatio ⟨negative, num', den'⟩ := by
  rw [← ofRatio_mul_left hd' negative num hd, ← ofRatio_mul_left hd negative num' hd',
    Nat.mul_comm den' num, h, Nat.mul_comm num' den, Nat.mul_comm den' den]

/-! ### The fields of a number -/

theorem magnitude_ofMagnitude (negative : Bool) (h : m < 2 ^ 63) : (ofMagnitude negative m).magnitude = m := by
  unfold ofMagnitude magnitude
  rw [UInt64.toNat_ofNat']
  cases negative
  · simp
    omega
  · simp
    omega

theorem ofMagnitude_magnitude (x : Binary64) : ofMagnitude x.isNegative x.magnitude = x := by
  have hbits : x.bits.toNat < 2 ^ 64 := x.bits.toNat_lt
  have hsum : x.magnitude + (if x.isNegative = true then Nat.pow 2 63 else 0) = x.bits.toNat := by
    unfold magnitude isNegative
    by_cases h : Nat.pow 2 63 ≤ x.bits.toNat
    · rw [if_pos (decide_eq_true h)]
      simp only [Nat.pow_eq] at h ⊢
      omega
    · rw [if_neg (by simpa using h)]
      simp only [Nat.pow_eq] at h ⊢
      omega
  unfold ofMagnitude
  rw [hsum, UInt64.ofNat_toNat]

/-- Rounding by the exponent and the factor that the quotient has. -/
theorem ofRatio_eq (negative : Bool) (hn : 0 < num) {q : ℤ}
    (hq : max (-1074) (floorLog2 num den - 52) = q) :
    ofRatio ⟨negative, num, den⟩ = ofMagnitude negative (min infinityMagnitude
      ((q + 1074).toNat * 2 ^ 52 +
        roundDiv (num * Nat.pow 2 (-q).toNat) (den * Nat.pow 2 q.toNat))) := by
  have hzero : (num == 0) = false := beq_false_of_ne hn.ne'
  unfold ofRatio
  simp only [hzero, hq]
  rfl

theorem scaled_pos (hd : 0 < den) (k : ℤ) : 0 < den * Nat.pow 2 k.toNat :=
  Nat.mul_pos hd (Nat.pow_pos (by omega))

/-- A number below half the range rounds to a finite one. -/
theorem isFinite_ofRatio (negative : Bool) (hd : 0 < den) (h : (num : ℚ) / den < 2 ^ (1023 : ℤ)) :
    (ofRatio ⟨negative, num, den⟩).isFinite = true := by
  rcases Nat.eq_zero_or_pos num with rfl | hn
  · have hzero : ofRatio ⟨negative, 0, den⟩ = ofMagnitude negative 0 := by simp [ofRatio, zero]
    rw [hzero, isFinite, magnitude_ofMagnitude negative (by omega)]
    decide
  · obtain ⟨hle, hlt⟩ := floorLog2_spec hn hd
    have hlog : floorLog2 num den < 1023 :=
      (zpow_lt_zpow_iff_right₀ (by norm_num : (1 : ℚ) < 2)).mp (hle.trans_lt h)
    obtain ⟨q, hq⟩ : ∃ q, max (-1074) (floorLog2 num den - 52) = q := ⟨_, rfl⟩
    have hround : roundDiv (num * Nat.pow 2 (-q).toNat) (den * Nat.pow 2 q.toNat) ≤ 2 ^ 53 := by
      refine roundDiv_le (scaled_pos hd q) ?_
      rw [scaled_div (by omega), div_lt_iff₀ (by positivity)]
      have hpow : (2 : ℚ) ^ (floorLog2 num den + 1) ≤ 2 ^ (53 + q) :=
        zpow_le_zpow_right₀ (by norm_num) (by omega)
      refine hlt.trans_le (hpow.trans_eq ?_)
      rw [zpow_add₀ two_ne_zero]
      norm_cast
    have hinf : infinityMagnitude = 2047 * 2 ^ 52 := rfl
    rw [ofRatio_eq negative hn hq, isFinite, magnitude_ofMagnitude, decide_eq_true_eq, hinf]
    · refine (min_le_right _ _).trans_lt ?_
      omega
    · rw [hinf]
      omega

theorem isFinite_ofInt {n : ℤ} (h : n.natAbs < 2 ^ 1023) : (ofInt n).isFinite = true := by
  refine isFinite_ofRatio _ one_pos ?_
  rw [Nat.cast_one, div_one]
  exact_mod_cast h

theorem ofRatio_of_near (negative : Bool) (hn : 0 < num) (hd : 0 < den) {q : ℤ}
    (hq : max (-1074) (floorLog2 num den - 52) = q) (h : |(num : ℚ) / den / 2 ^ q - m| < 1 / 2) :
    ofRatio ⟨negative, num, den⟩ =
      ofMagnitude negative (min infinityMagnitude ((q + 1074).toNat * 2 ^ 52 + m)) := by
  have hround : roundDiv (num * Nat.pow 2 (-q).toNat) (den * Nat.pow 2 q.toNat) = m := by
    refine roundDiv_eq (scaled_pos hd q) ?_
    rw [scaled_div (by omega)]
    exact_mod_cast h
  rw [ofRatio_eq negative hn hq, hround]

/-- **A quotient close to a floating-point number rounds to it.** The distance allowed is that to the middle
between a power of two and the number below it. -/
theorem ofRatio_of_close (negative : Bool) (hn : 0 < num) (hd : 0 < den) {q : ℤ} (hq : -1074 ≤ q)
    (hm : m < 2 ^ 53) (hnormal : 2 ^ 52 ≤ m ∨ q = -1074)
    (hclose : 2 ^ 54 * |(num : ℚ) / den - m * 2 ^ q| < m * 2 ^ q) :
    ofRatio ⟨negative, num, den⟩ =
      ofMagnitude negative (min infinityMagnitude ((q + 1074).toNat * 2 ^ 52 + m)) := by
  obtain ⟨hle, hlt⟩ := floorLog2_spec hn hd
  have h2 : (1 : ℚ) < 2 := by norm_num
  have hp : (0 : ℚ) < 2 ^ q := by positivity
  have hm1 : (m : ℚ) + 1 ≤ 2 ^ 53 := by
    have : m + 1 ≤ 2 ^ 53 := hm
    exact_mod_cast this
  -- everything is measured in units of `2 ^ q` from here on
  obtain ⟨y, hy⟩ : ∃ y, (num : ℚ) / den / 2 ^ q = y := ⟨_, rfl⟩
  have hvalue : (num : ℚ) / den = y * 2 ^ q := by rw [← hy, div_mul_cancel₀ _ hp.ne']
  have hratio : 2 ^ 54 * |y - m| < m := by
    rw [hvalue, ← sub_mul, abs_mul, abs_of_pos hp, ← mul_assoc] at hclose
    exact lt_of_mul_lt_mul_right hclose hp.le
  have hhalf : |y - m| < 1 / 2 := by linarith
  obtain ⟨hlow, hhigh⟩ := abs_lt.mp hhalf
  rw [hvalue] at hle hlt
  have hlog : floorLog2 num den < 53 + q := by
    refine (zpow_lt_zpow_iff_right₀ h2).mp (hle.trans_lt ?_)
    rw [zpow_add₀ two_ne_zero]
    refine mul_lt_mul_of_pos_right ?_ hp
    have h53 : (2 : ℚ) ^ (53 : ℤ) = 2 ^ 53 := rfl
    linarith
  have hlog_ge : ∀ {k : ℤ}, (2 : ℚ) ^ k ≤ y → k + q < floorLog2 num den + 1 := fun {k} hk => by
    refine (zpow_lt_zpow_iff_right₀ h2).mp (lt_of_le_of_lt ?_ hlt)
    rw [zpow_add₀ two_ne_zero]
    exact mul_le_mul_of_nonneg_right hk hp.le
  by_cases hsame : (2 : ℚ) ^ (52 : ℤ) ≤ y ∨ q = -1074
  · refine ofRatio_of_near negative hn hd ?_ (hy ▸ hhalf)
    rcases hsame with h52 | hq'
    · have := hlog_ge h52
      omega
    · omega
  · -- just below a power of two the exponent is one less
    obtain ⟨hy52, hq'⟩ := not_or.mp hsame
    have hy52' : y < 2 ^ 52 := by exact_mod_cast not_le.mp hy52
    have hm52 : m = 2 ^ 52 := by
      have hmlt : (m : ℚ) < 2 ^ 52 + 1 := by linarith
      have : m < 2 ^ 52 + 1 := by exact_mod_cast hmlt
      omega
    have hlogeq : floorLog2 num den = 51 + q := by
      have h51 : (2 : ℚ) ^ (51 : ℤ) ≤ y := by
        rw [hm52] at hlow
        norm_num at hlow ⊢
        linarith
      have hge := hlog_ge h51
      have hlt52 : floorLog2 num den < 52 + q := by
        refine (zpow_lt_zpow_iff_right₀ h2).mp (hle.trans_lt ?_)
        rw [zpow_add₀ two_ne_zero]
        exact mul_lt_mul_of_pos_right (by exact_mod_cast hy52') hp
      omega
    have hnear : |(num : ℚ) / den / 2 ^ (q - 1) - (2 ^ 53 : ℕ)| < 1 / 2 := by
      have hdouble : (num : ℚ) / den / 2 ^ (q - 1) - (2 ^ 53 : ℕ) = 2 * (y - m) := by
        rw [hvalue, hm52, zpow_sub₀ two_ne_zero, zpow_one]
        field_simp
        push_cast
        ring
      rw [hdouble, abs_mul, abs_two]
      rw [hm52] at hratio
      norm_num at hratio
      rw [hm52]
      norm_num
      linarith
    have hmagnitude : (q - 1 + 1074).toNat * 2 ^ 52 + 2 ^ 53 = (q + 1074).toNat * 2 ^ 52 + 2 ^ 52 := by omega
    rw [ofRatio_of_near negative hn hd (by omega : max (-1074) _ = q - 1) hnear, hm52, hmagnitude]

end PageInvalidation.Binary64
