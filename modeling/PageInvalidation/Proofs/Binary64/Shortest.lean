import PageInvalidation.Binary64.Shortest
import PageInvalidation.Proofs.Binary64.Rounding

/-! # Shortest decimals read back

A decimal is rounded like the quotient it stands for, also where its powers are not formed (`ofDecimal_eq`).
The decimal found for a finite number therefore reads back as that number: at the latest on a grid with
seventeen digits, where the nearer neighbour is close enough (`ofDecimal_shortest`). -/

namespace PageInvalidation.Binary64

variable {num den k k' : ℕ} {u u' : ℤ} {negative : Bool} {x : Binary64}

/-! ### Beyond the range -/

theorem le_roundDiv {m : ℕ} (hd : 0 < den) (h : (m : ℚ) ≤ num / den) : m ≤ roundDiv num den := by
  have hd' : (0 : ℚ) < den := by exact_mod_cast hd
  have hspec := (roundDiv_spec num hd).1
  rw [le_div_iff₀ hd'] at h
  have h' : m * den ≤ num := by exact_mod_cast h
  have hle : 2 * m * den ≤ (2 * roundDiv num den + 1) * den := by
    rw [Nat.mul_assoc]
    omega
  have := Nat.le_of_mul_le_mul_right hle hd
  omega

theorem ofRatio_of_large (hn : 0 < num) (hd : 0 < den) (h : (2 : ℚ) ^ (1024 : ℤ) ≤ num / den) :
    ofRatio ⟨negative, num, den⟩ = infinity negative := by
  obtain ⟨hle, hlt⟩ := floorLog2_spec hn hd
  have hlog : 1024 < floorLog2 num den + 1 :=
    (zpow_lt_zpow_iff_right₀ (by norm_num : (1 : ℚ) < 2)).mp (h.trans_lt hlt)
  obtain ⟨q, hq⟩ : ∃ q, max (-1074) (floorLog2 num den - 52) = q := ⟨_, rfl⟩
  have hround : 2 ^ 52 ≤ roundDiv (num * Nat.pow 2 (-q).toNat) (den * Nat.pow 2 q.toNat) := by
    refine le_roundDiv (scaled_pos hd q) ?_
    rw [scaled_div (by omega), le_div_iff₀ (by positivity)]
    have hq' : floorLog2 num den = 52 + q := by omega
    rw [hq', zpow_add₀ two_ne_zero] at hle
    exact_mod_cast hle
  have hinf : infinityMagnitude = 2047 * 2 ^ 52 := rfl
  rw [ofRatio_eq negative hn hq, infinity, min_eq_left]
  rw [hinf]
  omega

theorem ofRatio_of_small (hd : 0 < den) (h : (num : ℚ) / den < 2 ^ (-1075 : ℤ)) :
    ofRatio ⟨negative, num, den⟩ = zero negative := by
  rcases Nat.eq_zero_or_pos num with rfl | hn
  · simp [ofRatio]
  · obtain ⟨hle, -⟩ := floorLog2_spec hn hd
    have hlog : floorLog2 num den < -1075 :=
      (zpow_lt_zpow_iff_right₀ (by norm_num : (1 : ℚ) < 2)).mp (hle.trans_lt h)
    have hnear : |(num : ℚ) / den / 2 ^ (-1074 : ℤ) - (0 : ℕ)| < 1 / 2 := by
      rw [Nat.cast_zero, sub_zero, abs_of_nonneg (by positivity), div_lt_iff₀ (by positivity)]
      have hhalf : (2 : ℚ) ^ (-1075 : ℤ) = 1 / 2 * 2 ^ (-1074 : ℤ) := by
        rw [one_div, ← zpow_neg_one, ← zpow_add₀ two_ne_zero]
        rfl
      exact h.trans_eq hhalf
    rw [ofRatio_of_near negative hn hd (by omega : max (-1074) _ = (-1074 : ℤ)) hnear]
    rfl

/-! ### Decimals -/

theorem decimal_div (k : ℕ) (u : ℤ) :
    ((k * Nat.pow 10 u.toNat : ℕ) : ℚ) / (Nat.pow 10 (-u).toNat : ℕ) = k * 10 ^ u := by
  have h := scaled_div (b := 10) (by omega) k 1 (-u)
  rw [neg_neg, Nat.one_mul, Nat.cast_one, div_one, zpow_neg, div_inv_eq_mul] at h
  exact_mod_cast h

theorem ten_zpow_le_two_zpow (h : u ≤ 0) : (10 : ℚ) ^ u ≤ 2 ^ (3 * u) := by
  obtain ⟨n, hn⟩ := Int.eq_ofNat_of_zero_le (neg_nonneg.mpr h)
  obtain rfl : u = -(n : ℤ) := by omega
  rw [zpow_mul, zpow_neg, zpow_neg, zpow_natCast, zpow_natCast]
  refine inv_anti₀ (by positivity) (pow_le_pow_left₀ (by positivity) ?_ n)
  norm_num

/-- **A decimal is rounded like the quotient it stands for**, also far beyond the range. -/
theorem ofDecimal_eq (negative : Bool) (k : ℕ) (u : ℤ) : ofDecimal negative k u =
    ofRatio ⟨negative, k * Nat.pow 10 u.toNat, Nat.pow 10 (-u).toNat⟩ := by
  have hden : 0 < Nat.pow 10 (-u).toNat := Nat.pow_pos (by omega)
  rcases Nat.eq_zero_or_pos k with rfl | hk
  · simp [ofDecimal, ofRatio]
  have hnum : 0 < k * Nat.pow 10 u.toNat := Nat.mul_pos hk (Nat.pow_pos (by omega))
  have hzero : (k == 0) = false := beq_false_of_ne hk.ne'
  unfold ofDecimal
  rw [hzero, if_neg Bool.false_ne_true]
  split
  · rename_i hlarge
    refine (ofRatio_of_large hnum hden ?_).symm
    rw [decimal_div]
    have hk1 : (1 : ℚ) ≤ k := by exact_mod_cast hk
    have hpow : (10 : ℚ) ^ (400 : ℤ) ≤ 10 ^ u := zpow_le_zpow_right₀ (by norm_num) hlarge.le
    have h1024 : (2 : ℚ) ^ (1024 : ℤ) ≤ 10 ^ (400 : ℤ) :=
      calc (2 : ℚ) ^ (1024 : ℤ) ≤ 2 ^ (3 * 400 : ℤ) := zpow_le_zpow_right₀ (by norm_num) (by norm_num)
        _ = (2 ^ (3 : ℤ)) ^ (400 : ℤ) := zpow_mul _ _ _
        _ ≤ 10 ^ (400 : ℤ) := zpow_le_zpow_left₀ (by norm_num) (by norm_num) (by norm_num)
    calc (2 : ℚ) ^ (1024 : ℤ) ≤ 10 ^ u := h1024.trans hpow
      _ ≤ k * 10 ^ u := le_mul_of_one_le_left (by positivity) hk1
  · split
    · rename_i hsmall
      refine (ofRatio_of_small hden ?_).symm
      rw [decimal_div]
      have hu : u ≤ 0 := by omega
      have hlog : (k.log2 : ℤ) + 1 + 3 * u ≤ -1075 := by omega
      calc (k : ℚ) * 10 ^ u < 2 ^ ((k.log2 : ℤ) + 1) * 10 ^ u :=
            mul_lt_mul_of_pos_right (lt_two_zpow_log2 k) (by positivity)
        _ ≤ 2 ^ ((k.log2 : ℤ) + 1) * 2 ^ (3 * u) :=
            mul_le_mul_of_nonneg_left (ten_zpow_le_two_zpow hu) (by positivity)
        _ = 2 ^ ((k.log2 : ℤ) + 1 + 3 * u) := (zpow_add₀ two_ne_zero _ _).symm
        _ ≤ 2 ^ (-1075 : ℤ) := zpow_le_zpow_right₀ (by norm_num) hlog
    · rfl

/-- **Decimals of one value are the same number.** -/
theorem ofDecimal_congr (negative : Bool) (h : (k : ℚ) * 10 ^ u = k' * 10 ^ u') :
    ofDecimal negative k u = ofDecimal negative k' u' := by
  have hden : 0 < Nat.pow 10 (-u).toNat := Nat.pow_pos (by omega)
  have hden' : 0 < Nat.pow 10 (-u').toNat := Nat.pow_pos (by omega)
  rw [ofDecimal_eq, ofDecimal_eq]
  refine ofRatio_congr negative hden hden' ?_
  rw [← decimal_div, ← decimal_div, div_eq_div_iff (by positivity) (by positivity)] at h
  exact_mod_cast h

theorem ofRatio_eq_ofMagnitude (negative : Bool) (num den : ℕ) :
    ofRatio ⟨negative, num, den⟩ = ofMagnitude negative (ofRatio ⟨false, num, den⟩).magnitude := by
  rcases Nat.eq_zero_or_pos num with rfl | hn
  · have hzero : ∀ negative, ofRatio ⟨negative, 0, den⟩ = ofMagnitude negative 0 := fun _ => by
      simp [ofRatio, zero]
    rw [hzero, hzero, magnitude_ofMagnitude false (by omega)]
  · rw [ofRatio_eq negative hn rfl, ofRatio_eq false hn rfl, magnitude_ofMagnitude]
    have hinf : infinityMagnitude = 2047 * 2 ^ 52 := rfl
    rw [hinf]
    omega

/-! ### The fields of a finite number -/

theorem significand_lt (x : Binary64) : x.significand < 2 ^ 53 := by
  unfold significand
  simp only [Nat.pow_eq]
  split <;> omega

theorem exponent_ge (x : Binary64) : -1074 ≤ x.exponent := by
  unfold exponent
  simp only [Nat.pow_eq]
  split <;> omega

theorem significand_ge_or (x : Binary64) : 2 ^ 52 ≤ x.significand ∨ x.exponent = -1074 := by
  unfold significand exponent
  simp only [Nat.pow_eq]
  split <;> omega

theorem magnitude_eq (x : Binary64) :
    (x.exponent + 1074).toNat * 2 ^ 52 + x.significand = x.magnitude := by
  unfold significand exponent
  simp only [Nat.pow_eq]
  split <;> omega

theorem exponent_le (h : x.isFinite = true) : x.exponent ≤ 971 := by
  have hmagnitude : x.magnitude < 2047 * 2 ^ 52 := of_decide_eq_true h
  unfold exponent
  simp only [Nat.pow_eq]
  split <;> omega

theorem ratio_div (x : Binary64) :
    ((x.significand * Nat.pow 2 x.exponent.toNat : ℕ) : ℚ) / (Nat.pow 2 (-x.exponent).toNat : ℕ) =
      x.significand * 2 ^ x.exponent := by
  have h := scaled_div (b := 2) (by omega) x.significand 1 (-x.exponent)
  rw [neg_neg, Nat.one_mul, Nat.cast_one, div_one, zpow_neg, div_inv_eq_mul] at h
  exact_mod_cast h

/-! ### The number of digits -/

theorem ten_zpow_le (hd : 0 < den) (h : ¬num * Nat.pow 10 (-u).toNat < den * Nat.pow 10 u.toNat) :
    (10 : ℚ) ^ u ≤ num / den := by
  have hpos : (0 : ℚ) < ((den * Nat.pow 10 u.toNat : ℕ) : ℚ) := by
    exact_mod_cast Nat.mul_pos hd (Nat.pow_pos (by omega))
  have hscaled := scaled_div (b := 10) (by omega) num den u
  have hone : (1 : ℚ) ≤ num / den / (10 : ℕ) ^ u := by
    rw [← hscaled, one_le_div hpos]
    exact_mod_cast not_lt.mp h
  rw [one_le_div (by positivity)] at hone
  exact_mod_cast hone

/-- The estimate of the decimal logarithm is too large by less than one. -/
theorem ten_zpow_estimate_le {l : ℤ} (hlow : -1100 ≤ l) (hhigh : l ≤ 1100) :
    (10 : ℚ) ^ (l * 30103 / 100000 - 1) ≤ 2 ^ l := by
  obtain ⟨e, he⟩ : ∃ e, l * 30103 / 100000 - 1 = e := ⟨_, rfl⟩
  rw [he]
  rcases le_total 0 e with hpos | hneg
  · -- `10 ^ 31` is a little less than `2 ^ 103`
    refine le_of_pow_le_pow_left₀ (n := 31) (by omega) (by positivity) ?_
    have hbase : (10 : ℚ) ^ (31 : ℤ) ≤ 2 ^ (103 : ℤ) := by norm_num
    calc ((10 : ℚ) ^ e) ^ 31 = (10 ^ (31 : ℤ)) ^ e := by
          rw [← zpow_natCast, ← zpow_mul, ← zpow_mul, mul_comm]
          rfl
      _ ≤ (2 ^ (103 : ℤ)) ^ e := zpow_le_zpow_left₀ hpos (by positivity) hbase
      _ = 2 ^ (103 * e) := (zpow_mul _ _ _).symm
      _ ≤ 2 ^ (l * 31) := zpow_le_zpow_right₀ (by norm_num) (by omega)
      _ = (2 ^ l) ^ 31 := by rw [zpow_mul]; rfl
  · rcases le_total 0 l with hl | hl
    · exact (zpow_le_one_of_nonpos₀ (by norm_num) hneg).trans (one_le_zpow₀ (by norm_num) hl)
    · obtain ⟨a, ha⟩ := Int.eq_ofNat_of_zero_le (neg_nonneg.mpr hl)
      obtain ⟨b, hb⟩ := Int.eq_ofNat_of_zero_le (neg_nonneg.mpr hneg)
      obtain rfl : l = -(a : ℤ) := by omega
      obtain rfl : e = -(b : ℤ) := by omega
      rw [zpow_neg, zpow_neg, zpow_natCast, zpow_natCast]
      refine inv_anti₀ (by positivity) ?_
      -- `10 ^ 28` is a little more than `2 ^ 93`
      refine le_of_pow_le_pow_left₀ (n := 93) (by omega) (by positivity) ?_
      calc ((2 : ℚ) ^ a) ^ 93 = (2 ^ 93) ^ a := by rw [← pow_mul, ← pow_mul, mul_comm]
        _ ≤ (10 ^ 28) ^ a := pow_le_pow_left₀ (by positivity) (by norm_num) a
        _ = 10 ^ (28 * a) := (pow_mul _ _ _).symm
        _ ≤ 10 ^ (b * 93) := pow_le_pow_right₀ (by norm_num) (by omega)
        _ = (10 ^ b) ^ 93 := pow_mul _ _ _

theorem ten_zpow_decimalCeiling_le (hn : 0 < num) (hd : 0 < den) (hlow : -1100 ≤ floorLog2 num den)
    (hhigh : floorLog2 num den ≤ 1100) : (10 : ℚ) ^ (decimalCeiling num den - 1) ≤ num / den := by
  unfold decimalCeiling
  dsimp only
  split
  · exact (ten_zpow_estimate_le hlow hhigh).trans (floorLog2_spec hn hd).1
  · rename_i hfirst
    split
    · rw [add_sub_cancel_right]
      exact ten_zpow_le hd (by simpa using hfirst)
    · rename_i hsecond
      have htwo : ∀ e : ℤ, e + 2 - 1 = e + 1 := fun e => by omega
      rw [htwo]
      exact ten_zpow_le hd (by simpa using hsecond)

/-! ### The decimal that is found -/

/-- The nearer neighbour on a grid is at most one half away. -/
theorem exists_near_onGrid (magnitude num : ℕ) (hd : 0 < den) (u : ℤ) : ∃ k : ℕ,
    |(num : ℚ) / den / 10 ^ u - k| ≤ 1 / 2 ∧
      (readsBack magnitude ⟨k, u⟩ = true → onGrid magnitude num den u = some ⟨k, u⟩) := by
  have hscaled := scaled_div (b := 10) (by omega) num den u
  have hD : 0 < den * Nat.pow 10 u.toNat := Nat.mul_pos hd (Nat.pow_pos (by omega))
  unfold onGrid
  dsimp only
  generalize num * Nat.pow 10 (-u).toNat = N at *
  generalize den * Nat.pow 10 u.toNat = D at *
  have hD' : (0 : ℚ) < D := by exact_mod_cast hD
  have hvalue : (num : ℚ) / den / 10 ^ u = (N / D : ℕ) + (N % D : ℕ) / D := by
    have hmod : (N : ℚ) = D * (N / D : ℕ) + (N % D : ℕ) := by exact_mod_cast (Nat.div_add_mod N D).symm
    have hten : ((10 : ℕ) : ℚ) = 10 := by norm_num
    rw [hten] at hscaled
    rw [← hscaled, eq_comm, ← mul_right_inj' hD'.ne', mul_add, mul_div_cancel₀ _ hD'.ne', ← hmod,
      mul_div_cancel₀ _ hD'.ne']
  have hlt := Nat.mod_lt N hD
  rw [hvalue]
  by_cases hlow : (2 * (N % D) < D || (2 * (N % D) == D && (N / D) % 2 == 0)) = true
  · refine ⟨N / D, ?_, fun hreads => ?_⟩
    · have hle : 2 * (N % D) ≤ D := by
        simp only [Bool.or_eq_true, decide_eq_true_eq, Bool.and_eq_true, beq_iff_eq] at hlow
        omega
      have hle' : (2 * (N % D : ℕ) : ℚ) ≤ D := by exact_mod_cast hle
      rw [add_sub_cancel_left, abs_of_nonneg (by positivity), div_le_iff₀ hD']
      linarith
    · simp only [hlow, if_true, hreads]
  · refine ⟨N / D + 1, ?_, fun hreads => ?_⟩
    · have hle : D ≤ 2 * (N % D) := by
        simp only [Bool.or_eq_true, decide_eq_true_eq, not_or] at hlow
        omega
      have hle' : (D : ℚ) ≤ 2 * (N % D : ℕ) := by exact_mod_cast hle
      have hlt' : ((N % D : ℕ) : ℚ) / D ≤ 1 := (div_le_one hD').mpr (by exact_mod_cast hlt.le)
      have hhalf : (1 : ℚ) / 2 ≤ (N % D : ℕ) / D := by
        rw [le_div_iff₀ hD']
        linarith
      push_cast
      rw [abs_le]
      constructor <;> linarith
    · simp only [Bool.not_eq_true] at hlow
      simp only [hlow, Bool.false_eq_true, if_false, hreads, if_true]

theorem readsBack_of_onGrid {magnitude : ℕ} {d : Decimal} (h : onGrid magnitude num den u = some d) :
    readsBack magnitude d = true := by
  have hfirst : ∀ p : Decimal × Decimal, (if readsBack magnitude p.1 then some p.1
      else if readsBack magnitude p.2 then some p.2 else none) = some d → readsBack magnitude d = true := by
    rintro ⟨first, second⟩ h
    by_cases h₁ : readsBack magnitude first = true
    · rw [if_pos h₁] at h
      cases h
      exact h₁
    · rw [if_neg h₁] at h
      by_cases h₂ : readsBack magnitude second = true
      · rw [if_pos h₂] at h
        cases h
        exact h₂
      · rw [if_neg h₂] at h
        cases h
  exact hfirst _ h

/-- **A decimal with a unit far below the number reads back** if it is the nearest of its grid. -/
theorem readsBack_of_near (hx : x.isFinite = true)
    (hu : 2 ^ 53 * (10 : ℚ) ^ u < x.significand * 2 ^ x.exponent)
    (hk : |(x.significand : ℚ) * 2 ^ x.exponent / 10 ^ u - k| ≤ 1 / 2) :
    readsBack x.magnitude ⟨k, u⟩ = true := by
  have hp : (0 : ℚ) < 10 ^ u := by positivity
  have hclose : |(k : ℚ) * 10 ^ u - x.significand * 2 ^ x.exponent| ≤ 1 / 2 * 10 ^ u := by
    rw [abs_sub_comm, ← div_mul_cancel₀ ((x.significand : ℚ) * 2 ^ x.exponent) hp.ne', ← sub_mul, abs_mul,
      abs_of_pos hp]
    exact mul_le_mul_of_nonneg_right hk hp.le
  have hkpos : 0 < k := by
    rcases Nat.eq_zero_or_pos k with rfl | hk'
    · rw [Nat.cast_zero, zero_mul, zero_sub, abs_neg] at hclose
      have hle := (le_abs_self _).trans hclose
      norm_num at hu hle
      linarith
    · exact hk'
  have hinf : infinityMagnitude = 2047 * 2 ^ 52 := rfl
  have hfinite : x.magnitude < infinityMagnitude := of_decide_eq_true hx
  have hnum : 0 < k * Nat.pow 10 u.toNat := Nat.mul_pos hkpos (Nat.pow_pos (by omega))
  have hden : 0 < Nat.pow 10 (-u).toNat := Nat.pow_pos (by omega)
  have hround : ofDecimal false k u = ofMagnitude false x.magnitude := by
    rw [ofDecimal_eq, ofRatio_of_close false hnum hden x.exponent_ge x.significand_lt x.significand_ge_or,
      magnitude_eq, min_eq_right hfinite.le]
    rw [decimal_div]
    linarith
  rw [readsBack, hround, magnitude_ofMagnitude false (by rw [hinf] at hfinite; omega), beq_self_eq_true]

theorem carried_value (d : Decimal) :
    ((Decimal.carried d).digits : ℚ) * 10 ^ (Decimal.carried d).exponent = d.digits * 10 ^ d.exponent := by
  unfold Decimal.carried
  split
  · rename_i h
    rw [beq_iff_eq.mp h, zpow_add₀ (by norm_num)]
    push_cast
    ring
  · rfl

/-- A finite number as a fraction of natural numbers. -/
theorem parts_spec (hne : 0 < x.significand) (hnum : num = x.significand * Nat.pow 2 x.exponent.toNat)
    (hden : den = Nat.pow 2 (-x.exponent).toNat) :
    0 < num ∧ 0 < den ∧ (num : ℚ) / den = x.significand * 2 ^ x.exponent := by
  refine ⟨?_, ?_, ?_⟩
  · exact hnum ▸ Nat.mul_pos hne (Nat.pow_pos (by omega))
  · exact hden ▸ Nat.pow_pos (by omega)
  · rw [hnum, hden, ratio_div]

theorem floorLog2_finite (hx : x.isFinite = true) (hne : 0 < x.significand)
    (hnum : num = x.significand * Nat.pow 2 x.exponent.toNat) (hden : den = Nat.pow 2 (-x.exponent).toNat) :
    -1100 ≤ floorLog2 num den ∧ floorLog2 num den ≤ 1100 := by
  obtain ⟨hn, hd, hvalue⟩ := parts_spec hne hnum hden
  obtain ⟨hle, hlt⟩ := floorLog2_spec hn hd
  rw [hvalue] at hle hlt
  have hlow : (2 : ℚ) ^ (-1074 : ℤ) ≤ x.significand * 2 ^ x.exponent := by
    have hone : (1 : ℚ) ≤ x.significand := by exact_mod_cast hne
    exact (zpow_le_zpow_right₀ (by norm_num) x.exponent_ge).trans
      (le_mul_of_one_le_left (by positivity) hone)
  have hhigh : (x.significand : ℚ) * 2 ^ x.exponent < 2 ^ (1024 : ℤ) := by
    have hm : (x.significand : ℚ) < 2 ^ (53 : ℤ) := by exact_mod_cast x.significand_lt
    have hexponent : (2 : ℚ) ^ x.exponent ≤ 2 ^ (971 : ℤ) :=
      zpow_le_zpow_right₀ (by norm_num) (exponent_le hx)
    calc (x.significand : ℚ) * 2 ^ x.exponent < 2 ^ (53 : ℤ) * 2 ^ x.exponent :=
          mul_lt_mul_of_pos_right hm (by positivity)
      _ ≤ 2 ^ (53 : ℤ) * 2 ^ (971 : ℤ) := mul_le_mul_of_nonneg_left hexponent (by positivity)
      _ = 2 ^ (1024 : ℤ) := (zpow_add₀ two_ne_zero _ _).symm
  have h1 := (zpow_lt_zpow_iff_right₀ (by norm_num : (1 : ℚ) < 2)).mp (hlow.trans_lt hlt)
  have h2 := (zpow_lt_zpow_iff_right₀ (by norm_num : (1 : ℚ) < 2)).mp (hle.trans_lt hhigh)
  constructor <;> omega

/-- **Seventeen digits are enough.** -/
theorem exists_onGrid (hx : x.isFinite = true) (hne : 0 < x.significand)
    (hnum : num = x.significand * Nat.pow 2 x.exponent.toNat) (hden : den = Nat.pow 2 (-x.exponent).toNat) :
    ∃ d, onGrid x.magnitude num den (decimalCeiling num den - 17) = some d := by
  obtain ⟨hn, hd, hvalue⟩ := parts_spec hne hnum hden
  obtain ⟨hlow, hhigh⟩ := floorLog2_finite hx hne hnum hden
  have hceiling := ten_zpow_decimalCeiling_le hn hd hlow hhigh
  generalize decimalCeiling num den = top at *
  have hu : 2 ^ 53 * (10 : ℚ) ^ (top - 17) < x.significand * 2 ^ x.exponent := by
    have hten : (10 : ℚ) ^ (top - 1) = 10 ^ (16 : ℤ) * 10 ^ (top - 17) := by
      rw [← zpow_add₀ (by norm_num)]
      congr 1
      omega
    rw [hten, hvalue] at hceiling
    refine lt_of_lt_of_le (mul_lt_mul_of_pos_right ?_ (by positivity)) hceiling
    norm_num
  obtain ⟨k, hnear, hgrid⟩ := exists_near_onGrid x.magnitude num hd (top - 17)
  rw [hvalue] at hnear
  exact ⟨_, hgrid (readsBack_of_near hx hu hnear)⟩

/-- **The shortest decimal of a finite number reads back.** -/
theorem ofDecimal_shortest (hx : x.isFinite = true) :
    ofDecimal x.isNegative x.shortest.digits x.shortest.exponent = x := by
  have hratio : x.ratio? = some ⟨x.isNegative, x.significand * Nat.pow 2 x.exponent.toNat,
      Nat.pow 2 (-x.exponent).toNat⟩ := if_pos hx
  obtain ⟨num, hnum⟩ : ∃ num, num = x.significand * Nat.pow 2 x.exponent.toNat := ⟨_, rfl⟩
  obtain ⟨den, hden⟩ : ∃ den, den = Nat.pow 2 (-x.exponent).toNat := ⟨_, rfl⟩
  rw [← hnum, ← hden] at hratio
  unfold shortest
  rw [hratio]
  dsimp only
  rcases Nat.eq_zero_or_pos x.significand with hzero | hne
  · have hnum0 : num = 0 := by rw [hnum, hzero, Nat.zero_mul]
    have hmagnitude : x.magnitude = 0 := by
      have hsum := magnitude_eq x
      have hor := significand_ge_or x
      rw [hzero] at hsum hor
      omega
    have hx0 : ofMagnitude x.isNegative 0 = x := by rw [← hmagnitude, ofMagnitude_magnitude]
    rw [hnum0, if_pos (by rfl)]
    exact hx0
  · have hnum0 : (num == 0) = false := beq_false_of_ne (hnum ▸ Nat.mul_pos hne (Nat.pow_pos (by omega))).ne'
    rw [hnum0, if_neg Bool.false_ne_true]
    obtain ⟨d₁₇, h₁₇⟩ := exists_onGrid hx hne hnum hden
    generalize decimalCeiling num den = top at *
    have hplace : top - 17 ∈ (List.range 17).map fun n => top - (n + 1 : ℕ) :=
      List.mem_map.mpr ⟨16, by decide, rfl⟩
    obtain ⟨d, hd⟩ : ∃ d, ((List.range 17).map fun n => top - (n + 1 : ℕ)).findSome?
        (onGrid x.magnitude num den) = some d :=
      Option.isSome_iff_exists.mp (List.findSome?_isSome_iff.mpr ⟨_, hplace, by rw [h₁₇]; rfl⟩)
    obtain ⟨u, -, hgrid⟩ := List.exists_of_findSome?_eq_some hd
    have hreads : (ofDecimal false d.digits d.exponent).magnitude = x.magnitude :=
      beq_iff_eq.mp (readsBack_of_onGrid hgrid)
    rw [hd, Option.map_some, Option.getD_some, ofDecimal_congr x.isNegative (carried_value d), ofDecimal_eq,
      ofRatio_eq_ofMagnitude, ← ofDecimal_eq, hreads, ofMagnitude_magnitude]

end PageInvalidation.Binary64
