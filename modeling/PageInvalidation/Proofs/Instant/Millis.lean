import PageInvalidation.Instant.Millis
import PageInvalidation.Proofs.Binary64.Values

/-! # Milliseconds and back

A number of milliseconds is read as an instant through a number of seconds, and an instant is written through another.
Both numbers are the same binary fraction (`isDyadic_seconds`), since the instant is less than half a unit away from it
wherever a unit is longer than a microsecond. Its product with a thousand is rounded below the milliseconds for some of
them (`FallsShort`), and these come back one nearer to zero; all others come back (`toMillis_ofMillis`). -/

namespace PageInvalidation.Instant

open Binary64 (IsDyadic abs_roundDiv_sub_le exists_mul_ofInt exists_ratio?_ofRatio isDyadic_mul isDyadic_ofRatio
  isDyadic_ofRatio_exact ofInt ofRatio roundDiv roundDiv_spec)

variable {n : ℤ} {a j m F M N T : ℕ} {r : Ratio} {x : Binary64} {negative : Bool}

/-! ### The years of instants -/

/-- A number of milliseconds on a day of the years 1 to 9999. -/
def InYears (n : ℤ) : Prop :=
  1 ≤ (Calendar.ofDays (n / 86400000)).year ∧ (Calendar.ofDays (n / 86400000)).year ≤ 9999

instance : DecidablePred InYears := fun _ => inferInstanceAs (Decidable (_ ∧ _))

theorem natAbs_lt_of_inYears (h : InYears n) : n.natAbs < 2 ^ 49 := by
  obtain ⟨hlow, hhigh⟩ := h
  simp only [Calendar.ofDays, Calendar.epochShift] at hlow hhigh
  omega

/-! ### Units of seconds -/

/-- Units of `1 / 2 ^ j` seconds of which `N` milliseconds have as many as fifty-three bits can count. -/
structure Scale (N j : ℕ) : Prop where
  low : 1000 * 2 ^ 52 ≤ N * 2 ^ j
  high : N * 2 ^ j < 1000 * 2 ^ 53
  fine : 13 ≤ j
  coarse : j ≤ 62

/-- The number of units in `N` milliseconds, rounded. -/
def units (N j : ℕ) : ℕ := roundDiv (N * 2 ^ j) 1000

/-- The milliseconds that come back one nearer to zero. They are counted in units that give them sixty-two bits; the
thousandth is rounded off, and more of it than the half of what the product rounds to. -/
def FallsShort (N : ℕ) : Prop :=
  1000 * 2 ^ 52 ≤ N * 2 ^ (61 - N.log2) ∧ 256 < N * 2 ^ (61 - N.log2) % 1000 ∧ N * 2 ^ (61 - N.log2) % 1000 < 500

instance : DecidablePred FallsShort := fun _ => inferInstanceAs (Decidable (_ ∧ _))

/-- All units are of one of two sizes, depending on the first bits. -/
theorem exists_scale (hN : 0 < N) (hlt : N < 2 ^ 49) : ∃ j, Scale N j ∧
    (FallsShort N ↔ N * 2 ^ j < 2 ^ 62 ∧ 256 < N * 2 ^ j % 1000 ∧ N * 2 ^ j % 1000 < 500) := by
  have hlog : N.log2 < 49 := (Nat.log2_lt hN.ne').mpr hlt
  obtain ⟨j, hj⟩ : ∃ j, N.log2 + j = 61 := ⟨61 - N.log2, by omega⟩
  have hlow := Nat.mul_le_mul_right (2 ^ j) (Nat.log2_self_le hN.ne')
  have hhigh := Nat.mul_lt_mul_of_pos_right (Nat.lt_log2_self (n := N)) (Nat.two_pow_pos j)
  rw [← Nat.pow_add, hj] at hlow
  rw [← Nat.pow_add, Nat.add_right_comm, hj] at hhigh
  have hshort : FallsShort N ↔ 1000 * 2 ^ 52 ≤ N * 2 ^ j ∧ 256 < N * 2 ^ j % 1000 ∧ N * 2 ^ j % 1000 < 500 := by
    rw [FallsShort, (by omega : 61 - N.log2 = j)]
  rw [hshort]
  by_cases hunit : 1000 * 2 ^ 52 ≤ N * 2 ^ j
  · exact ⟨j, ⟨hunit, by omega, by omega, by omega⟩, by omega⟩
  · have hdouble : N * 2 ^ (j + 1) = 2 * (N * 2 ^ j) := by
      rw [Nat.pow_succ]
      ring
    exact ⟨j + 1, ⟨by omega, by omega, by omega, by omega⟩, by omega⟩

theorem Scale.dvd (h : Scale N j) : N * 2 ^ j % 2 ^ 13 = 0 :=
  Nat.mod_eq_zero_of_dvd ((Nat.pow_dvd_pow 2 h.fine).mul_left N)

theorem Scale.thousand_mul_units (h : Scale N j) : 1000 * units N j + N * 2 ^ j % 1000 =
    if N * 2 ^ j % 1000 < 500 then N * 2 ^ j else N * 2 ^ j + 1000 := by
  have hdvd := h.dvd
  unfold units roundDiv
  dsimp only
  generalize N * 2 ^ j = a at *
  split_ifs <;> omega

theorem Scale.le_units (h : Scale N j) : 2 ^ 52 ≤ units N j := by
  have hlow := h.low
  have hunits := h.thousand_mul_units
  split_ifs at hunits <;> omega

theorem Scale.units_lt (h : Scale N j) : units N j < 2 ^ 53 := by
  have hhigh := h.high
  have hdvd := h.dvd
  have hunits := h.thousand_mul_units
  split_ifs at hunits <;> omega

theorem isDyadic_secondsOfMillis (h : Scale n.natAbs j) :
    IsDyadic (secondsOfMillis n) (n < 0) (units n.natAbs j) j :=
  isDyadic_ofRatio _ (by omega) (by omega) (by have := h.low; omega) (by have := h.high; omega)
    (by have := h.coarse; omega) (by ring)

/-! ### Microseconds -/

/-- The microseconds of a fraction of a second, before they are rounded to a whole number. -/
theorem exists_ratio?_fraction {num den : ℕ} (hd : 0 < den) (hF : F < 2 ^ 53) (hF' : F < 2 ^ j) (hj : j ≤ 62)
    (h : num * 2 ^ j = F * den) : ∃ f, (ofRatio ⟨false, num, den⟩ * ofInt 1000000).ratio? = some f ∧
      0 < f.den ∧ (F = 0 → f.num = 0) ∧ 2 ^ 33 * |(f.num : ℚ) / f.den - 1000000 * F / 2 ^ j| ≤ 1 := by
  have hx := isDyadic_ofRatio_exact false hd hF (by omega) h
  obtain ⟨num', den', hproduct, hden', hvalue⟩ := exists_mul_ofInt (k := 1000000) hx (by omega)
  have hmul : ofRatio ⟨false, num, den⟩ * ofInt 1000000 = ofRatio ⟨false, num', den'⟩ := hproduct
  rw [hmul]
  rcases Nat.eq_zero_or_pos F with rfl | hpos
  · obtain ⟨f, hratio, -, hden, hzero⟩ := isDyadic_ofRatio_exact false hden' (by omega : 0 < 2 ^ 53) (by omega)
      (hvalue.trans (by rw [Nat.mul_zero]))
    obtain hnum : f.num = 0 := by
      rw [Nat.zero_mul] at hzero
      exact (Nat.mul_eq_zero.mp hzero).resolve_right (Nat.two_pow_pos j).ne'
    exact ⟨f, hratio, hden, fun _ => hnum, by rw [hnum]; norm_num⟩
  · have hp : (0 : ℚ) < 2 ^ j := by positivity
    have hd' : (0 : ℚ) < den' := by exact_mod_cast hden'
    have hq : (num' : ℚ) / den' = 1000000 * F / 2 ^ j := by
      rw [div_eq_div_iff hd'.ne' hp.ne']
      exact_mod_cast hvalue
    have hlow : (2 : ℚ) ^ (-1000 : ℤ) ≤ num' / den' := by
      rw [hq, le_div_iff₀ hp]
      have hF1 : (1 : ℚ) ≤ F := by exact_mod_cast hpos
      calc (2 : ℚ) ^ (-1000 : ℤ) * 2 ^ j = 2 ^ (-1000 + j : ℤ) := by
            rw [zpow_add₀ two_ne_zero, zpow_natCast]
        _ ≤ 1 := zpow_le_one_of_nonpos₀ (by norm_num) (by omega)
        _ ≤ 1000000 * F := by linarith
    have hhigh : (num' : ℚ) / den' < 1000000 := by
      rw [hq, div_lt_iff₀ hp]
      have : (F : ℚ) < 2 ^ j := by exact_mod_cast hF'
      linarith
    have hnum' : 0 < num' := by
      refine Nat.pos_of_mul_pos_right (b := 2 ^ j) ?_
      rw [hvalue]
      positivity
    have hrange : (1000000 : ℚ) < 2 ^ (1000 : ℤ) :=
      (by norm_num : (1000000 : ℚ) < 2 ^ (20 : ℤ)).trans (zpow_lt_zpow_right₀ (by norm_num) (by omega))
    obtain ⟨f, hratio, hden, herror⟩ := exists_ratio?_ofRatio false hnum' hden' hlow (hhigh.trans hrange)
    rw [hq] at herror hhigh
    exact ⟨f, hratio, hden, fun h0 => absurd h0 hpos.ne', by linarith⟩

/-- The microseconds of `± M` units: at most half a microsecond off, and exact if the units make whole seconds. -/
theorem exists_microsOfSeconds (hd : 0 < r.den) (hM : M < 2 ^ 53) (hj : j ≤ 62) (h : r.num * 2 ^ j = M * r.den) :
    ∃ T : ℕ, microsOfSeconds r = (if r.negative then -(T : ℤ) else T) ∧
      (2 ^ j ∣ M → T * 2 ^ j = 1000000 * M) ∧
      2 ^ 33 * |(T : ℚ) - 1000000 * M / 2 ^ j| ≤ 2 ^ 32 + 1 := by
  have hp : (0 : ℚ) < 2 ^ j := by positivity
  have hwhole : r.num / r.den = M / 2 ^ j := by
    rw [← Nat.mul_div_mul_right r.num r.den (Nat.two_pow_pos j), h, Nat.mul_comm r.den, Nat.mul_div_mul_right _ _ hd]
  have hpart : r.num % r.den * 2 ^ j = M % 2 ^ j * r.den := by
    rw [← Nat.mul_mod_mul_right, h, Nat.mul_comm r.den, Nat.mul_mod_mul_right]
  obtain ⟨f, hratio, hden, hzero, herror⟩ := exists_ratio?_fraction hd ((Nat.mod_le _ _).trans_lt hM)
    (Nat.mod_lt M (Nat.two_pow_pos j)) hj hpart
  refine ⟨M / 2 ^ j * 1000000 + roundDiv f.num f.den, ?_, fun hdvd => ?_, ?_⟩
  · unfold microsOfSeconds
    simp only [hratio, hwhole, second]
    push_cast
    rfl
  · obtain ⟨c, rfl⟩ := hdvd
    have hround : roundDiv f.num f.den = 0 := by
      rw [hzero (Nat.mul_mod_right _ _)]
      have hspec := (roundDiv_spec 0 hden).2
      by_contra hne
      have : 1 * f.den ≤ roundDiv 0 f.den * f.den := Nat.mul_le_mul_right _ (Nat.pos_of_ne_zero hne)
      rw [Nat.mul_assoc] at hspec
      omega
    rw [hround, Nat.mul_div_cancel_left _ (Nat.two_pow_pos j)]
    ring
  · have hround := abs_roundDiv_sub_le f.num hden
    have hsplit : (M : ℚ) / 2 ^ j = (M / 2 ^ j : ℕ) + (M % 2 ^ j : ℕ) / 2 ^ j := by
      have hmod : ((2 ^ j * (M / 2 ^ j) + M % 2 ^ j : ℕ) : ℚ) = M := by rw [Nat.div_add_mod]
      rw [← hmod, Nat.cast_add, add_div, Nat.cast_mul, Nat.cast_pow, Nat.cast_ofNat, mul_div_cancel_left₀ _ hp.ne']
    have hsum : ((M / 2 ^ j * 1000000 + roundDiv f.num f.den : ℕ) : ℚ) - 1000000 * M / 2 ^ j =
        ((roundDiv f.num f.den : ℚ) - f.num / f.den) + (f.num / f.den - 1000000 * (M % 2 ^ j : ℕ) / 2 ^ j) := by
      rw [mul_div_assoc, mul_div_assoc, hsplit]
      push_cast
      ring
    rw [hsum]
    have htriangle := abs_add_le ((roundDiv f.num f.den : ℚ) - f.num / f.den)
      (f.num / f.den - 1000000 * (M % 2 ^ j : ℕ) / 2 ^ j)
    linarith

/-- What a number `T` of microseconds that `N` milliseconds are read as has to do with both the milliseconds and the
units. -/
structure Micros (N j T : ℕ) : Prop where
  near : |(T : ℤ) - 1000 * N| ≤ 61
  whole : 1000 ∣ N → T = 1000 * N
  exact_of_fine : 20 ≤ j → T = 1000 * N
  /-- Where a unit is longer than a microsecond, the microseconds are nearest to the units they came from. -/
  nearest : j < 20 → 2 ^ 52 * 1000000 ≤ T * 2 ^ j ∧ T * 2 ^ j < 2 ^ 53 * 1000000 ∧
    roundDiv (T * 2 ^ j) 1000000 = units N j

theorem Scale.abs_units_sub_le (h : Scale N j) : |1000 * (units N j : ℤ) - N * 2 ^ j| ≤ 500 := by
  have hunits := h.thousand_mul_units
  have hcast : ((N * 2 ^ j : ℕ) : ℤ) = N * 2 ^ j := by push_cast; rfl
  rw [abs_le, ← hcast]
  split_ifs at hunits <;> omega

theorem Scale.units_of_dvd (h : Scale N j) (hdvd : 1000 ∣ N) : units N j = N / 1000 * 2 ^ j := by
  obtain ⟨c, rfl⟩ := hdvd
  have hunits := h.thousand_mul_units
  rw [Nat.mul_assoc, Nat.mul_mod_right, if_pos (by omega)] at hunits
  rw [Nat.mul_div_cancel_left c (by omega)]
  omega

theorem Scale.micros (h : Scale N j) (hexact : 2 ^ j ∣ units N j → T * 2 ^ j = 1000000 * units N j)
    (herror : 2 ^ 33 * |(T : ℚ) - 1000000 * units N j / 2 ^ j| ≤ 2 ^ 32 + 1) : Micros N j T := by
  have hunits := h.abs_units_sub_le
  have hlow := h.le_units
  have hhigh := h.units_lt
  have herror' : 2 ^ 33 * |(T : ℤ) * 2 ^ j - 1000000 * units N j| ≤ (2 ^ 32 + 1) * 2 ^ j := by
    have hp : (0 : ℚ) < 2 ^ j := by positivity
    have hscaled : |(T : ℚ) * 2 ^ j - 1000000 * units N j| = |(T : ℚ) - 1000000 * units N j / 2 ^ j| * 2 ^ j := by
      rw [← abs_of_pos hp, ← abs_mul, abs_of_pos hp, sub_mul, div_mul_cancel₀ _ hp.ne']
    have hmul := mul_le_mul_of_nonneg_right herror hp.le
    rw [mul_assoc, ← hscaled] at hmul
    exact_mod_cast hmul
  have hp : (0 : ℤ) < 2 ^ j := by positivity
  -- the distance from the milliseconds, in units
  have hdistance : 2 ^ 33 * (|(T : ℤ) - 1000 * N| * 2 ^ j) ≤ (2 ^ 32 + 1) * 2 ^ j + 2 ^ 33 * 500000 := by
    have hsum : ((T : ℤ) - 1000 * N) * 2 ^ j =
        (T * 2 ^ j - 1000000 * units N j) + 1000 * (1000 * units N j - N * 2 ^ j) := by ring
    have htriangle := abs_add_le ((T : ℤ) * 2 ^ j - 1000000 * units N j) (1000 * (1000 * units N j - N * 2 ^ j))
    rw [← hsum, abs_mul 1000, abs_mul, abs_of_pos hp] at htriangle
    norm_num at htriangle ⊢
    omega
  refine ⟨?_, fun hdvd => ?_, fun hj => ?_, fun hj => ?_⟩
  · have hfine : (2 : ℤ) ^ 13 ≤ 2 ^ j := pow_le_pow_right₀ (by omega) h.fine
    have hlt : |(T : ℤ) - 1000 * N| * 2 ^ j < 62 * 2 ^ j := by omega
    have := lt_of_mul_lt_mul_right hlt hp.le
    omega
  · have hwhole := h.units_of_dvd hdvd
    have hexact' := hexact (Dvd.intro_left _ hwhole.symm)
    rw [hwhole, ← Nat.mul_assoc] at hexact'
    have := Nat.eq_of_mul_eq_mul_right (Nat.two_pow_pos j) hexact'
    omega
  · have hfine : (2 : ℤ) ^ 20 ≤ 2 ^ j := pow_le_pow_right₀ (by omega) hj
    have hlt : |(T : ℤ) - 1000 * N| * 2 ^ j < 1 * 2 ^ j := by omega
    have := abs_lt.mp (lt_of_mul_lt_mul_right hlt hp.le)
    omega
  · have hcoarse : (2 : ℤ) ^ j ≤ 2 ^ 19 := pow_le_pow_right₀ (by omega) (by omega)
    have hcast : ((T * 2 ^ j : ℕ) : ℤ) = T * 2 ^ j := by push_cast; rfl
    have hclose : |((T * 2 ^ j : ℕ) : ℤ) - 1000000 * units N j| < 500000 := by
      rw [hcast]
      omega
    obtain ⟨hbelow, habove⟩ := abs_lt.mp hclose
    have hfirst : units N j = 2 ^ 52 → T * 2 ^ j = 1000000 * units N j := fun heq =>
      hexact (heq ▸ Nat.pow_dvd_pow 2 (by omega))
    have hspec := roundDiv_spec (T * 2 ^ j) (by omega : 0 < 1000000)
    refine ⟨?_, ?_, ?_⟩ <;> omega

/-! ### Back to seconds -/

/-- **The seconds that an instant is written through are those it was read through.** -/
theorem Micros.isDyadic_seconds (hT : Micros N j T) (h : Scale N j) (negative : Bool) :
    IsDyadic (ofRatio ⟨negative, T, 1000000⟩) negative (units N j) j := by
  have hcoarse := h.coarse
  rcases Nat.lt_or_ge j 20 with hj | hj
  · obtain ⟨hlow, hhigh, hround⟩ := hT.nearest hj
    rw [← hround]
    exact isDyadic_ofRatio negative (by omega) (by omega) hlow hhigh (by omega) (by ring)
  · have hlow := h.low
    have hhigh := h.high
    rw [hT.exact_of_fine hj]
    exact isDyadic_ofRatio negative (by omega) (by omega) (by omega) (by omega) (by omega) (by ring)

/-- A number halfway between an odd one and the next is rounded up. -/
theorem roundDiv_of_half {q : ℕ} (hq : q % 2 = 1) : roundDiv (2 ^ 9 * q + 2 ^ 8) (2 ^ 9) = q + 1 := by
  have hdiv : (2 ^ 9 * q + 2 ^ 8) / 2 ^ 9 = q := by omega
  have hmod : (2 ^ 9 * q + 2 ^ 8) % 2 ^ 9 = 2 ^ 8 := by omega
  unfold roundDiv
  dsimp only
  rw [hdiv, hmod, hq]
  rfl

/-- The units of the product: with sixty-three bits it loses ten of them, and the milliseconds are the nearest. -/
theorem Scale.roundDiv_of_large (h : Scale N j) :
    roundDiv (1000 * units N j) (2 ^ 10) / 2 ^ (j - 10) = N := by
  have hfine := h.fine
  have hunits := h.thousand_mul_units
  have hspec := roundDiv_spec (1000 * units N j) (by omega : 0 < 2 ^ 10)
  have hsplit : N * 2 ^ j = 2 ^ 10 * (N * 2 ^ (j - 10)) := by
    rw [Nat.mul_left_comm, ← Nat.pow_add, Nat.add_sub_cancel' (by omega)]
  have hround : roundDiv (1000 * units N j) (2 ^ 10) = N * 2 ^ (j - 10) := by
    rw [hsplit] at hunits
    split_ifs at hunits <;> omega
  rw [hround, Nat.mul_div_cancel N (Nat.two_pow_pos _)]

/-- With sixty-two bits it loses nine, and the unit before the milliseconds may be nearer. -/
theorem Scale.roundDiv_of_small (h : Scale N j) (hN : 0 < N) :
    roundDiv (1000 * units N j) (2 ^ 9) / 2 ^ (j - 9) =
      if 256 < N * 2 ^ j % 1000 ∧ N * 2 ^ j % 1000 < 500 then N - 1 else N := by
  have hfine := h.fine
  have hdvd := h.dvd
  have hunits := h.thousand_mul_units
  have hspec := roundDiv_spec (1000 * units N j) (by omega : 0 < 2 ^ 9)
  have hsplit : N * 2 ^ j = 2 ^ 9 * (N * 2 ^ (j - 9)) := by
    rw [Nat.mul_left_comm, ← Nat.pow_add, Nat.add_sub_cancel' (by omega)]
  have hunit : 2 ^ 1 ≤ 2 ^ (j - 9) := Nat.pow_le_pow_right (by omega) (by omega)
  have hbefore : (N - 1) * 2 ^ (j - 9) + 2 ^ (j - 9) = N * 2 ^ (j - 9) := by
    rw [← Nat.succ_mul, Nat.succ_eq_add_one, Nat.sub_add_cancel hN]
  have hafter : (N + 1) * 2 ^ (j - 9) = N * 2 ^ (j - 9) + 2 ^ (j - 9) := Nat.succ_mul _ _
  rw [hsplit] at hunits hdvd ⊢
  have hrest := Nat.mod_lt (2 ^ 9 * (N * 2 ^ (j - 9))) (by omega : 0 < 1000)
  generalize 2 ^ 9 * (N * 2 ^ (j - 9)) % 1000 = rest at hunits hrest ⊢
  by_cases hdown : rest < 500
  · rw [if_pos hdown] at hunits
    by_cases hcut : 256 < rest
    · rw [if_pos ⟨hcut, hdown⟩]
      refine Nat.div_eq_of_lt_le (by omega) ?_
      rw [Nat.sub_add_cancel hN]
      omega
    · rw [if_neg fun h => hcut h.1]
      refine Nat.div_eq_of_lt_le ?_ (by omega)
      -- at most half a unit is missing, and if just half, from an even number of them
      by_cases hhalf : rest = 256
      · have hround := roundDiv_of_half (q := N * 2 ^ (j - 9) - 1) (by omega)
        rw [(by omega : 2 ^ 9 * (N * 2 ^ (j - 9) - 1) + 2 ^ 8 = 1000 * units N j)] at hround
        omega
      · omega
  · rw [if_neg hdown] at hunits
    rw [if_neg fun h => hdown h.2]
    exact Nat.div_eq_of_lt_le (by omega) (by omega)

/-- **The product with a thousand, without its fraction**, is the number of milliseconds or the one before it. -/
theorem Scale.truncate?_mul (h : Scale N j) (hN : 0 < N) (hx : IsDyadic x negative (units N j) j)
    (hshort : FallsShort N ↔ N * 2 ^ j < 2 ^ 62 ∧ 256 < N * 2 ^ j % 1000 ∧ N * 2 ^ j % 1000 < 500) :
    ∃ m : ℕ, m = (if FallsShort N then N - 1 else N) ∧
      (x * ofInt 1000).truncate? = some (if negative then -(m : ℤ) else m) := by
  have hfine := h.fine
  have hcoarse := h.coarse
  have hunits := h.thousand_mul_units
  have hdvd := h.dvd
  have hlow := h.low
  have hhigh := h.high
  have hle := h.le_units
  by_cases hlarge : 2 ^ 62 ≤ N * 2 ^ j
  · have hproduct := isDyadic_mul (k := 1000) (e := 10) hx (by omega) (by omega) (by omega)
      (by split_ifs at hunits <;> omega) (by split_ifs at hunits <;> omega)
    refine ⟨_, ?_, hproduct.truncate?⟩
    rw [h.roundDiv_of_large, if_neg (by rw [hshort]; omega)]
  · have hproduct := isDyadic_mul (k := 1000) (e := 9) hx (by omega) (by omega) (by omega)
      (by split_ifs at hunits <;> omega) (by split_ifs at hunits <;> omega)
    refine ⟨_, ?_, hproduct.truncate?⟩
    rw [h.roundDiv_of_small hN]
    exact if_congr (by rw [hshort, and_iff_right (not_le.mp hlarge)]) rfl rfl

/-! ### There and back -/

/-- What a number of milliseconds comes back as: itself, or the next one nearer to zero. -/
def returned (n : ℤ) : ℤ := if FallsShort n.natAbs then n - n.sign else n

theorem returned_eq_self_iff : returned n = n ↔ ¬FallsShort n.natAbs := by
  have hzero : ¬FallsShort (0 : ℤ).natAbs := by decide +kernel
  unfold returned
  split
  · rename_i hshort
    have hne : n ≠ 0 := fun h => hzero (h ▸ hshort)
    have hsign := mt Int.sign_eq_zero_iff_zero.mp hne
    exact iff_of_false (by omega) (not_not.mpr hshort)
  · rename_i hshort
    exact iff_of_true rfl hshort

example : (List.range 1025).filter (FallsShort ·) = (List.range 12).map (1001 + 2 * ·) := by decide +kernel

theorem ofMillis_eq (hn : InYears n) {r : Ratio} (hratio : (secondsOfMillis n).ratio? = some r)
    (hnear : |microsOfSeconds r - 1000 * n| ≤ 61) (hwhole : 1000 ∣ n → microsOfSeconds r = 1000 * n) :
    ofMillis n = .ok ⟨microsOfSeconds r, some 0⟩ := by
  have hsmall := natAbs_lt_of_inYears hn
  obtain ⟨hbelow, habove⟩ := abs_le.mp hnear
  have hday : microsOfSeconds r / day = n / 86400000 := by
    simp only [day, second]
    omega
  have hwrap : wrapWord (Calendar.ofDays (n / 86400000)).year = (Calendar.ofDays (n / 86400000)).year := by
    obtain ⟨hlow, hhigh⟩ := hn
    exact Int.bmod_eq_of_le (by simp only [Nat.pow_eq]; omega) (by simp only [Nat.pow_eq]; omega)
  obtain ⟨hlow, hhigh⟩ := hn
  unfold ofMillis
  simp only [hratio, hday, hwrap]
  rw [if_neg, if_neg, if_neg]
  · omega
  · simp only [Nat.pow_eq]
    omega
  · simp only [Nat.pow_eq, second]
    omega

/-- **The milliseconds of an instant that was read from milliseconds.** -/
theorem toMillis_ofMillis (hn : InYears n) :
    ∃ t, ofMillis n = .ok t ∧ t.offset = some 0 ∧ t.toMillis = returned n := by
  rcases eq_or_ne n 0 with rfl | h0
  · exact ⟨⟨0, some 0⟩, by decide +kernel, rfl, by decide +kernel⟩
  obtain ⟨j, hscale, hshort⟩ := exists_scale (Int.natAbs_pos.mpr h0) (natAbs_lt_of_inYears hn)
  obtain ⟨r, hratio, hnegative, hden, hvalue⟩ := isDyadic_secondsOfMillis hscale
  obtain ⟨T, hmicros, hexact, herror⟩ := exists_microsOfSeconds hden hscale.units_lt hscale.coarse hvalue
  have hT := hscale.micros hexact herror
  have hnear := abs_le.mp hT.near
  have hwhole := hT.whole
  -- both signs alike from here on
  have hsign : microsOfSeconds r = if n < 0 then -(T : ℤ) else T := by
    simp only [hmicros, hnegative, decide_eq_true_eq]
  have hzero : microsOfSeconds r < 0 ↔ n < 0 := by
    rw [hsign]
    split_ifs <;> omega
  have habs : (microsOfSeconds r).natAbs = T := by
    rw [hsign]
    split_ifs <;> omega
  refine ⟨⟨microsOfSeconds r, some 0⟩, ofMillis_eq hn hratio ?_ fun hdvd => ?_, rfl, ?_⟩
  · rw [hsign, abs_le]
    split_ifs <;> omega
  · have := hwhole (by omega)
    rw [hsign]
    split_ifs <;> omega
  · obtain ⟨m, hm, htruncate⟩ := hscale.truncate?_mul (Int.natAbs_pos.mpr h0)
      (hT.isDyadic_seconds hscale (decide (n < 0))) hshort
    have huniversal : universal ⟨microsOfSeconds r, some 0⟩ = microsOfSeconds r := sub_zero _
    unfold toMillis
    simp only [huniversal, habs, hzero, htruncate, Option.getD_some, hm, returned, decide_eq_true_eq]
    rcases lt_or_gt_of_ne h0 with hneg | hpos
    · rw [Int.sign_eq_neg_one_of_neg hneg]
      split_ifs <;> omega
    · rw [Int.sign_eq_one_of_pos hpos]
      split_ifs <;> omega

end PageInvalidation.Instant
