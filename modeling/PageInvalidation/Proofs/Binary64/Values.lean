import PageInvalidation.Proofs.Binary64.Integers

/-! # The values of rounded numbers

A number that is `± m / 2 ^ j` (`IsDyadic`), for natural numbers only. Rounding a quotient between two powers of two
that are fifty-two bits above a unit gives the rounded number of units (`isDyadic_ofRatio`), a number of at most
fifty-three bits is not rounded at all (`isDyadic_ofRatio_exact`), and the rounding of a product of two numbers is that
of the product of their values (`isDyadic_mul`). For other quotients the relative error is bounded
(`exists_ratio?_ofRatio`). -/

namespace PageInvalidation.Binary64

variable {a b e j k m n num den : ℕ} {q : ℤ} {x : Binary64} {negative : Bool}

/-! ### Numbers over a power of two -/

/-- The number is `± m / 2 ^ j`. -/
def IsDyadic (x : Binary64) (negative : Bool) (m j : ℕ) : Prop :=
  ∃ r, x.ratio? = some r ∧ r.negative = negative ∧ 0 < r.den ∧ r.num * 2 ^ j = m * r.den

theorem negative_of_ratio? {r : Ratio} (h : x.ratio? = some r) : r.negative = x.isNegative := by
  unfold ratio? at h
  split at h
  · cases h
    rfl
  · cases h

theorem IsDyadic.truncate? (h : IsDyadic x negative m j) :
    x.truncate? = some (if negative then -((m / 2 ^ j : ℕ) : ℤ) else ((m / 2 ^ j : ℕ) : ℤ)) := by
  obtain ⟨r, hratio, hnegative, hden, hvalue⟩ := h
  have hdiv : r.num / r.den = m / 2 ^ j := by
    rw [← Nat.mul_div_mul_right r.num r.den (Nat.two_pow_pos j), hvalue, Nat.mul_comm r.den,
      Nat.mul_div_mul_right _ _ hden]
  rw [Binary64.truncate?, hratio, Option.map_some, truncate?.signedTrunc, hnegative, hdiv]

theorem isDyadic_zero (negative : Bool) (j : ℕ) : IsDyadic (zero negative) negative 0 j := by
  cases negative
  · exact ⟨⟨false, 0, 2 ^ 1074⟩, by decide +kernel, rfl, Nat.two_pow_pos _, by rw [Nat.zero_mul, Nat.zero_mul]⟩
  · exact ⟨⟨true, 0, 2 ^ 1074⟩, by decide +kernel, rfl, Nat.two_pow_pos _, by rw [Nat.zero_mul, Nat.zero_mul]⟩

/-! ### Rounded quotients -/

/-- A number that is put together from a factor and an exponent has their product as its value, also where the factor
is the power of two after those with fifty-three bits. -/
theorem exists_ratio?_ofMagnitude (negative : Bool) (hm : 2 ^ 52 ≤ m) (hm' : m ≤ 2 ^ 53) (hq : -1074 ≤ q)
    (hq' : q < 971) : ∃ r, (ofMagnitude negative ((q + 1074).toNat * 2 ^ 52 + m)).ratio? = some r ∧
      r.negative = negative ∧ 0 < r.den ∧ (r.num : ℚ) / r.den = m * 2 ^ q := by
  obtain ⟨m', q', hfactor, hfactor', hlow, hhigh, hvalue, hsum⟩ : ∃ (m' : ℕ) (q' : ℤ), 2 ^ 52 ≤ m' ∧ m' < 2 ^ 53 ∧
      -1074 ≤ q' ∧ q' ≤ 971 ∧ (m' : ℚ) * 2 ^ q' = m * 2 ^ q ∧
      (q + 1074).toNat * 2 ^ 52 + m = (q' + 1074).toNat * 2 ^ 52 + m' := by
    rcases hm'.lt_or_eq with hlt | rfl
    · exact ⟨m, q, hm, hlt, hq, hq'.le, rfl, rfl⟩
    · refine ⟨2 ^ 52, q + 1, by omega, by omega, by omega, by omega, ?_, by omega⟩
      rw [zpow_add₀ two_ne_zero]
      push_cast
      ring
  obtain ⟨hfinite, hsignificand, hexponent⟩ := fields_ofMagnitude negative hfactor hfactor' hlow hhigh rfl
  have hnegative := isNegative_ofMagnitude negative
    (by omega : (q' + 1074).toNat * 2 ^ 52 + m' < 2 ^ 63)
  have hratio := ratio_div (ofMagnitude negative ((q' + 1074).toNat * 2 ^ 52 + m'))
  rw [hsum]
  refine ⟨_, if_pos hfinite, hnegative, Nat.pow_pos (by omega), ?_⟩
  rw [hratio, hsignificand, hexponent, hvalue]

theorem roundDiv_congr (hb : 0 < b) (hd : 0 < den) (h : num * b = a * den) : roundDiv num den = roundDiv a b := by
  rw [← roundDiv_mul_left hb, ← roundDiv_mul_left hd a b, Nat.mul_comm b num, h, Nat.mul_comm a den,
    Nat.mul_comm b den]

/-- **The value of a rounded quotient**, in units of `1 / 2 ^ j`. -/
theorem isDyadic_ofRatio (negative : Bool) (hb : 0 < b) (hd : 0 < den) (hlow : 2 ^ 52 * b ≤ a)
    (hhigh : a < 2 ^ 53 * b) (hj : j ≤ 1074) (h : num * (b * 2 ^ j) = a * den) :
    IsDyadic (ofRatio ⟨negative, num, den⟩) negative (roundDiv a b) j := by
  have hb' : (0 : ℚ) < b := by exact_mod_cast hb
  have hd' : (0 : ℚ) < den := by exact_mod_cast hd
  have hn : 0 < num := by
    refine Nat.pos_of_mul_pos_right (b := b * 2 ^ j) ?_
    rw [h]
    exact Nat.mul_pos (by omega) hd
  have hlow' : (2 : ℚ) ^ (52 : ℤ) ≤ a / b := by
    rw [le_div_iff₀ hb']
    exact_mod_cast hlow
  have hhigh' : (a : ℚ) / b < 2 ^ (53 : ℤ) := by
    rw [div_lt_iff₀ hb']
    exact_mod_cast hhigh
  have hvalue : (num : ℚ) / den = a / b * 2 ^ (-(j : ℤ)) := by
    rw [zpow_neg, zpow_natCast, ← div_eq_mul_inv, div_div, div_eq_div_iff hd'.ne' (by positivity)]
    exact_mod_cast h
  have hlog : floorLog2 num den = 52 - j := by
    refine floorLog2_eq hn hd ?_ ?_
    · rw [hvalue, sub_eq_add_neg, zpow_add₀ two_ne_zero]
      exact mul_le_mul_of_nonneg_right hlow' (by positivity)
    · rw [hvalue, sub_add_eq_add_sub, sub_eq_add_neg, zpow_add₀ two_ne_zero]
      exact mul_lt_mul_of_pos_right hhigh' (by positivity)
  have hround : roundDiv (num * Nat.pow 2 (-(-(j : ℤ))).toNat) (den * Nat.pow 2 (-(j : ℤ)).toNat) = roundDiv a b := by
    have h0 : (-(j : ℤ)).toNat = 0 := by omega
    have h1 : (-(-(j : ℤ))).toNat = j := by omega
    rw [h0, h1]
    refine roundDiv_congr hb (by simpa using hd) ?_
    simp only [Nat.pow_eq, Nat.pow_zero, Nat.mul_one]
    rw [← h, Nat.mul_assoc, Nat.mul_comm b]
  have hm : 2 ^ 52 ≤ roundDiv a b := le_roundDiv hb (by exact_mod_cast hlow')
  have hm' : roundDiv a b ≤ 2 ^ 53 := roundDiv_le hb (by exact_mod_cast hhigh')
  obtain ⟨r, hratio, hnegative, hden, hr⟩ :=
    exists_ratio?_ofMagnitude (q := -(j : ℤ)) negative hm hm' (by omega) (by omega)
  have hinf : infinityMagnitude = 2047 * 2 ^ 52 := rfl
  rw [ofRatio_eq negative hn (by omega : max (-1074) (floorLog2 num den - 52) = -(j : ℤ)), hround, min_eq_right]
  · refine ⟨r, hratio, hnegative, hden, ?_⟩
    rw [zpow_neg, zpow_natCast, ← div_eq_mul_inv, div_eq_div_iff (by positivity) (by positivity)] at hr
    exact_mod_cast hr
  · omega

theorem roundDiv_one (m : ℕ) : roundDiv m 1 = m := by
  have h := roundDiv_spec m one_pos
  omega

/-- **A quotient of at most fifty-three bits over a power of two is not rounded.** -/
theorem isDyadic_ofRatio_exact (negative : Bool) (hd : 0 < den) (hm : m < 2 ^ 53) (hj : j ≤ 1000)
    (h : num * 2 ^ j = m * den) : IsDyadic (ofRatio ⟨negative, num, den⟩) negative m j := by
  rcases Nat.eq_zero_or_pos m with rfl | hpos
  · obtain rfl : num = 0 := by
      rw [Nat.zero_mul] at h
      exact (Nat.mul_eq_zero.mp h).resolve_right (Nat.two_pow_pos j).ne'
    exact isDyadic_zero negative j
  · have hlog : m.log2 < 53 := (Nat.log2_lt hpos.ne').mpr hm
    obtain ⟨c, hc⟩ : ∃ c, m.log2 + c = 52 := ⟨52 - m.log2, by omega⟩
    have hlow := Nat.mul_le_mul_right (2 ^ c) (Nat.log2_self_le hpos.ne')
    have hhigh := Nat.mul_lt_mul_of_pos_right (Nat.lt_log2_self (n := m)) (Nat.two_pow_pos c)
    rw [← Nat.pow_add, hc] at hlow
    rw [← Nat.pow_add, Nat.add_right_comm, hc] at hhigh
    have hscaled : num * (1 * 2 ^ (j + c)) = m * 2 ^ c * den := by
      rw [Nat.one_mul, Nat.pow_add, ← Nat.mul_assoc, h, Nat.mul_right_comm]
    obtain ⟨r, hratio, hnegative, hden, hvalue⟩ :=
      isDyadic_ofRatio negative one_pos hd (by omega) (by omega) (by omega) hscaled
    refine ⟨r, hratio, hnegative, hden, Nat.eq_of_mul_eq_mul_right (Nat.two_pow_pos c) ?_⟩
    rw [Nat.mul_assoc, ← Nat.pow_add, hvalue, roundDiv_one, Nat.mul_right_comm]

/-! ### Products -/

/-- The product with a natural number is rounded from the product of the values. -/
theorem exists_mul_ofInt (hx : IsDyadic x negative m j) (hk : k ≤ 2 ^ 53) :
    ∃ num den, x * ofInt k = ofRatio ⟨negative, num, den⟩ ∧ 0 < den ∧ num * 2 ^ j = k * m * den := by
  obtain ⟨r, hratio, hnegative, hden, hvalue⟩ := hx
  obtain ⟨d, hd, hratio'⟩ := exists_ratio?_ofInt hk
  have hsign : x.isNegative = negative := by
    rw [← hnegative, negative_of_ratio? hratio]
  refine ⟨r.num * (k * d), r.den * d, ?_, Nat.mul_pos hden hd, ?_⟩
  · change mul _ _ = _
    rw [mul, isNaN_of_ratio? hratio, isNaN_of_ratio? hratio', if_neg Bool.false_ne_true, if_neg Bool.false_ne_true,
      hratio, hratio', hsign, (fields_ofInt hk).2.1, Bool.bne_false]
  · rw [Nat.mul_right_comm, hvalue]
    ring

/-- **The rounded product with a natural number**, `2 ^ e` units fewer than the exact one. -/
theorem isDyadic_mul (hx : IsDyadic x negative m j) (hk : k ≤ 2 ^ 53) (he : e ≤ j) (hj : j ≤ 1074)
    (hlow : 2 ^ 52 * 2 ^ e ≤ k * m) (hhigh : k * m < 2 ^ 53 * 2 ^ e) :
    IsDyadic (x * ofInt k) negative (roundDiv (k * m) (2 ^ e)) (j - e) := by
  obtain ⟨num, den, hproduct, hden, hvalue⟩ := exists_mul_ofInt hx hk
  rw [hproduct]
  refine isDyadic_ofRatio negative (Nat.two_pow_pos e) hden hlow hhigh (by omega) ?_
  rw [← Nat.pow_add, Nat.add_sub_cancel' he, hvalue]

/-! ### The error of a rounding -/

theorem abs_roundDiv_sub_le (num : ℕ) (hd : 0 < den) : |(roundDiv num den : ℚ) - num / den| ≤ 1 / 2 := by
  have hd' : (0 : ℚ) < den := by exact_mod_cast hd
  obtain ⟨hlow, hhigh⟩ := roundDiv_spec num hd
  have hlow' : (2 * num : ℚ) ≤ (2 * roundDiv num den + 1) * den := by exact_mod_cast hlow
  have hhigh' : (2 * roundDiv num den * den : ℚ) ≤ 2 * num + den := by exact_mod_cast hhigh
  rw [abs_le, neg_le_sub_iff_le_add, sub_le_iff_le_add, div_le_iff₀ hd', ← sub_le_iff_le_add', le_div_iff₀ hd']
  constructor <;> linarith

/-- **The relative error of a rounded quotient** is half a unit of its fifty-third bit. -/
theorem exists_ratio?_ofRatio (negative : Bool) (hn : 0 < num) (hd : 0 < den)
    (hlow : (2 : ℚ) ^ (-1000 : ℤ) ≤ num / den) (hhigh : (num : ℚ) / den < 2 ^ (1000 : ℤ)) :
    ∃ r, (ofRatio ⟨negative, num, den⟩).ratio? = some r ∧ 0 < r.den ∧
      2 ^ 53 * |(r.num : ℚ) / r.den - num / den| ≤ num / den := by
  obtain ⟨hle, hlt⟩ := floorLog2_spec hn hd
  have hlog : -1000 < floorLog2 num den + 1 :=
    (zpow_lt_zpow_iff_right₀ (by norm_num : (1 : ℚ) < 2)).mp (hlow.trans_lt hlt)
  have hlog' : floorLog2 num den < 1000 :=
    (zpow_lt_zpow_iff_right₀ (by norm_num : (1 : ℚ) < 2)).mp (hle.trans_lt hhigh)
  obtain ⟨q, hq⟩ : ∃ q, floorLog2 num den - 52 = q := ⟨_, rfl⟩
  obtain hfloor : floorLog2 num den = 52 + q := by omega
  have hp : (0 : ℚ) < 2 ^ q := by positivity
  rw [hfloor, zpow_add₀ two_ne_zero] at hle
  rw [hfloor, add_right_comm, zpow_add₀ two_ne_zero] at hlt
  have hscaled := scaled_div (b := 2) (by omega) num den q
  have hround := abs_roundDiv_sub_le (num * Nat.pow 2 (-q).toNat) (scaled_pos hd q)
  rw [hscaled] at hround
  generalize hm : roundDiv (num * Nat.pow 2 (-q).toNat) (den * Nat.pow 2 q.toNat) = m at hround
  have hm1 : 2 ^ 52 ≤ m := by
    rw [← hm]
    refine le_roundDiv (scaled_pos hd q) ?_
    rw [hscaled, le_div_iff₀ (by positivity)]
    exact_mod_cast hle
  have hm2 : m ≤ 2 ^ 53 := by
    rw [← hm]
    refine roundDiv_le (scaled_pos hd q) ?_
    rw [hscaled, div_lt_iff₀ (by positivity)]
    exact_mod_cast hlt
  obtain ⟨r, hratio, -, hden, hvalue⟩ := exists_ratio?_ofMagnitude (q := q) negative hm1 hm2 (by omega) (by omega)
  have hinf : infinityMagnitude = 2047 * 2 ^ 52 := rfl
  rw [ofRatio_eq negative hn (by omega : max (-1074) (floorLog2 num den - 52) = q), hm, min_eq_right (by omega)]
  refine ⟨r, hratio, hden, ?_⟩
  have hunits : (m : ℚ) * 2 ^ q - num / den = (m - num / den / 2 ^ q) * 2 ^ q := by
    rw [sub_mul, div_mul_cancel₀ _ hp.ne']
  rw [hvalue, hunits, abs_mul, abs_of_pos hp]
  calc 2 ^ 53 * (|(m : ℚ) - num / den / 2 ^ q| * 2 ^ q) ≤ 2 ^ 53 * (1 / 2 * 2 ^ q) := by gcongr; exact_mod_cast hround
    _ = 2 ^ (52 : ℤ) * 2 ^ q := by
      norm_cast
      ring
    _ ≤ num / den := hle

end PageInvalidation.Binary64
