import PageInvalidation.Binary64.Arithmetic
import PageInvalidation.Proofs.Binary64.Shortest

/-! # Integers among the binary floating-point numbers

A natural number of at most fifty-three bits, or the power of two after them, is a floating-point number
(`exists_ratio?_ofInt`), and such numbers are added exactly as long as the sum is one (`ofInt_add_ofInt`,
`foldl_add_ofInt`). -/

namespace PageInvalidation.Binary64

variable {a b m n : ℕ} {q : ℤ} {x : Binary64}

/-! ### A number by its factor and its exponent -/

theorem fields_ofMagnitude (negative : Bool) (hm : 2 ^ 52 ≤ m) (hm' : m < 2 ^ 53) (hq : -1074 ≤ q) (hq' : q ≤ 971)
    (hx : x = ofMagnitude negative ((q + 1074).toNat * 2 ^ 52 + m)) :
    x.isFinite = true ∧ x.significand = m ∧ x.exponent = q := by
  have hmagnitude : x.magnitude = (q + 1074).toNat * 2 ^ 52 + m := by
    rw [hx, magnitude_ofMagnitude negative (by omega)]
  have hinf : infinityMagnitude = 2047 * 2 ^ 52 := rfl
  refine ⟨?_, ?_, ?_⟩
  · rw [isFinite, decide_eq_true_eq, hmagnitude, hinf]
    omega
  · rw [significand, hmagnitude]
    simp only [Nat.pow_eq]
    split <;> omega
  · rw [exponent, hmagnitude]
    simp only [Nat.pow_eq]
    split <;> omega

theorem isNegative_ofMagnitude (negative : Bool) (h : m < 2 ^ 63) :
    (ofMagnitude negative m).isNegative = negative := by
  unfold ofMagnitude isNegative
  rw [UInt64.toNat_ofNat']
  cases negative
  · simp only [Bool.false_eq_true, if_false, Nat.pow_eq, decide_eq_false_iff_not]
    omega
  · simp only [if_true, Nat.pow_eq, decide_eq_true_eq]
    omega

/-! ### Integers that are floating-point numbers -/

/-- A natural number of at most fifty-three bits, shifted to just that many. -/
theorem exists_normal (hn : 0 < n) (h : n ≤ 2 ^ 53) : ∃ (m : ℕ) (q : ℤ), 2 ^ 52 ≤ m ∧ m < 2 ^ 53 ∧
    -1074 ≤ q ∧ q ≤ 971 ∧ (n : ℚ) = m * 2 ^ q := by
  rcases h.lt_or_eq with hlt | rfl
  · have hlog : n.log2 < 53 := (Nat.log2_lt hn.ne').mpr hlt
    obtain ⟨k, hk⟩ : ∃ k, n.log2 + k = 52 := ⟨52 - n.log2, by omega⟩
    have hle := Nat.mul_le_mul_right (2 ^ k) (Nat.log2_self_le hn.ne')
    have hgt := Nat.mul_lt_mul_of_pos_right (Nat.lt_log2_self (n := n)) (Nat.two_pow_pos k)
    rw [← Nat.pow_add, hk] at hle
    rw [← Nat.pow_add, Nat.add_right_comm, hk] at hgt
    refine ⟨n * 2 ^ k, -k, hle, hgt, by omega, by omega, ?_⟩
    rw [zpow_neg, zpow_natCast]
    push_cast
    rw [mul_inv_cancel_right₀ (by positivity)]
  · refine ⟨2 ^ 52, 1, by omega, by omega, by omega, by omega, ?_⟩
    norm_num

theorem ofInt_natCast (n : ℕ) : ofInt n = ofRatio ⟨false, n, 1⟩ := by
  rw [ofInt, decide_eq_false (by omega : ¬(n : ℤ) < 0), Int.natAbs_natCast]

/-- The fields of a natural number of at most fifty-three bits. -/
theorem fields_ofInt (h : n ≤ 2 ^ 53) : (ofInt n).isFinite = true ∧ (ofInt n).isNegative = false ∧
    ((ofInt n).significand : ℚ) * 2 ^ (ofInt n).exponent = n := by
  rcases Nat.eq_zero_or_pos n with rfl | hn
  · have hsignificand : (ofInt (0 : ℕ)).significand = 0 := by decide
    exact ⟨by decide, by decide, by rw [hsignificand, Nat.cast_zero, zero_mul]⟩
  obtain ⟨m, q, hm, hm', hq, hq', hvalue⟩ := exists_normal hn h
  have hpos : (0 : ℚ) < m * 2 ^ q := by
    rw [← hvalue]
    exact_mod_cast hn
  have hclose := ofRatio_of_close false hn one_pos hq hm' (.inl hm) (by
    rw [Nat.cast_one, div_one, hvalue, sub_self, abs_zero, mul_zero]
    exact hpos)
  have hinf : infinityMagnitude = 2047 * 2 ^ 52 := rfl
  rw [min_eq_right (by omega), ← ofInt_natCast] at hclose
  obtain ⟨hfinite, hsignificand, hexponent⟩ := fields_ofMagnitude false hm hm' hq hq' hclose
  refine ⟨hfinite, ?_, by rw [hsignificand, hexponent, hvalue]⟩
  rw [hclose]
  exact isNegative_ofMagnitude false (by omega)

/-- **A natural number of at most fifty-three bits is a floating-point number.** -/
theorem exists_ratio?_ofInt (h : n ≤ 2 ^ 53) :
    ∃ den, 0 < den ∧ (ofInt n).ratio? = some ⟨false, n * den, den⟩ := by
  obtain ⟨hfinite, hnegative, hvalue⟩ := fields_ofInt h
  have hden : 0 < Nat.pow 2 (-(ofInt n).exponent).toNat := Nat.pow_pos (by omega)
  have hdiv := ratio_div (ofInt n)
  rw [hvalue, div_eq_iff (by positivity)] at hdiv
  refine ⟨_, hden, ?_⟩
  rw [ratio?, if_pos hfinite, hnegative]
  congr 2
  exact_mod_cast hdiv

theorem equalsInt_ofInt (h : n ≤ 2 ^ 53) : (ofInt n).equalsInt n = true := by
  obtain ⟨den, hden, hratio⟩ := exists_ratio?_ofInt h
  have hintegral : (ofInt n).isIntegral = true := by
    rw [isIntegral, hratio]
    exact beq_iff_eq.mpr (Nat.mul_mod_left n den)
  have htruncate : (ofInt n).truncate? = some (n : ℤ) := by
    rw [truncate?, hratio, Option.map_some, truncate?.signedTrunc, if_neg Bool.false_ne_true,
      Nat.mul_div_cancel n hden]
  rw [equalsInt, hintegral, htruncate, beq_self_eq_true]
  rfl

theorem isZero_ofInt {n : ℤ} (hn : n ≠ 0) : (ofInt n).isZero = false := by
  obtain ⟨q, hq⟩ : ∃ q, max (-1074) (floorLog2 n.natAbs 1 - 52) = q := ⟨_, rfl⟩
  have hlog : -1 ≤ floorLog2 n.natAbs 1 := by
    have hone : Nat.log2 1 = 0 := by decide
    unfold floorLog2
    dsimp only
    rw [hone]
    split <;> omega
  have hinf : infinityMagnitude = 2047 * 2 ^ 52 := rfl
  rw [isZero, ofInt, ofRatio_eq _ (by omega) hq, magnitude_ofMagnitude _ (by omega), beq_eq_false_iff_ne]
  omega

/-! ### Sums -/

theorem isNaN_of_ratio? {r : Ratio} (h : x.ratio? = some r) : x.isNaN = false := by
  have hfinite : x.isFinite = true := by
    by_contra hinfinite
    rw [ratio?, if_neg hinfinite] at h
    cases h
  have hlt : x.magnitude < infinityMagnitude := of_decide_eq_true hfinite
  exact decide_eq_false (by omega)

/-- **Natural numbers of at most fifty-three bits are added with one rounding.** -/
theorem ofInt_add_ofInt (ha : a ≤ 2 ^ 53) (hb : b ≤ 2 ^ 53) : ofInt a + ofInt b = ofInt (a + b : ℕ) := by
  obtain ⟨d, hd, hra⟩ := exists_ratio?_ofInt ha
  obtain ⟨e, he, hrb⟩ := exists_ratio?_ofInt hb
  have hsum : addRatio ⟨false, a * d, d⟩ ⟨false, b * e, e⟩ = ⟨false, (a + b) * (d * e), d * e⟩ := by
    have hnum : ((a * d : ℕ) : ℤ) * (e : ℕ) + ((b * e : ℕ) : ℤ) * (d : ℕ) = ((a + b) * (d * e) : ℕ) := by
      push_cast
      ring
    simp only [addRatio, Ratio.signedNum, Bool.false_eq_true, if_false, hnum, Int.natAbs_natCast, Bool.and_self,
      Ratio.mk.injEq, and_true]
    rw [decide_eq_false (by omega), ite_self]
  calc ofInt a + ofInt b = ofRatio (addRatio ⟨false, a * d, d⟩ ⟨false, b * e, e⟩) := by
        change add _ _ = _
        rw [add, isNaN_of_ratio? hra, isNaN_of_ratio? hrb, if_neg Bool.false_ne_true, if_neg Bool.false_ne_true,
          hra, hrb]
    _ = ofRatio ⟨false, a + b, 1⟩ := by
        rw [hsum]
        exact ofRatio_congr false (Nat.mul_pos hd he) one_pos (Nat.mul_one _)
    _ = ofInt (a + b : ℕ) := (ofInt_natCast _).symm

/-- **Natural numbers are added up exactly** as long as the sum has at most fifty-three bits. -/
theorem foldl_add_ofInt : ∀ {ns : List ℕ} {a : ℕ}, a + ns.sum ≤ 2 ^ 53 →
    ns.foldl (fun x (n : ℕ) => x + ofInt n) (ofInt a) = ofInt (a + ns.sum : ℕ)
  | [], _, _ => rfl
  | n :: ns, a, h => by
    rw [List.sum_cons] at h ⊢
    rw [List.foldl_cons, ofInt_add_ofInt (by omega) (by omega), foldl_add_ofInt (by omega), Nat.add_assoc]

end PageInvalidation.Binary64
