import Mathlib.Data.List.Basic
import PageInvalidation.Proofs.Text.UpperCase
import PageInvalidation.Text.Utf8

/-! # How many bytes a text has

The sizes of the parts of a text add up (`Utf8.size_append`), and a character has one to four bytes. The upper case
of a character can have more bytes than the character, but at most four more (`Utf8.size_upperChar_le`): one character
never has more than four, and those of which there are several are checked one by one. -/

namespace PageInvalidation.Text

theorem upperCodes_eq_singleton_or (n : ℕ) :
    (∃ m, upperCodes n = [m]) ∨ ∃ e ∈ upperLong, e.1 = n ∧ upperCodes n = e.2 := by
  unfold upperCodes
  cases upperRuns.find? (·.holds n) with
  | some run => exact .inl ⟨_, rfl⟩
  | none =>
    cases hlong : upperLong.find? (·.1 == n) with
    | none => exact .inl ⟨n, rfl⟩
    | some e =>
      have hcode : e.1 = n := by simpa using List.find?_some hlong
      exact .inr ⟨e, List.mem_of_find?_eq_some hlong, hcode, rfl⟩

namespace Utf8

theorem size_append (s t : List Char) : size (s ++ t) = size s + size t := by
  simp [size, encode]

theorem size_cons (c : Char) (s : List Char) : size (c :: s) = size [c] + size s := size_append [c] s

theorem size_replicate (n : ℕ) (c : Char) : size (List.replicate n c) = n * size [c] := by
  induction n with
  | zero => rw [List.replicate_zero, Nat.zero_mul, size, encode, List.flatMap_nil, List.length_nil]
  | succ n ih => rw [List.replicate_succ, size_cons, ih, Nat.succ_mul, Nat.add_comm]

theorem size_singleton_le (c : Char) : size [c] ≤ 4 := by
  simp only [size, encode, List.flatMap_singleton, encodeChar]
  split
  · simp
  split
  · simp
  split <;> simp

theorem size_upperLong : (upperLong.all fun e => size (e.2.map Char.ofNat) ≤ size [Char.ofNat e.1] + 4) = true := by
  decide +kernel

/-- **Upper case makes a character longer by at most four bytes.** -/
theorem size_upperChar_le (c : Char) : size (upperChar c) ≤ size [c] + 4 := by
  unfold upperChar
  rcases upperCodes_eq_singleton_or c.toNat with ⟨m, hm⟩ | ⟨e, he, hcode, hcodes⟩
  · have hsize := size_singleton_le (Char.ofNat m)
    rw [hm, List.map_singleton]
    omega
  · have hsize := List.all_eq_true.mp size_upperLong e he
    rw [hcode, Char.ofNat_toNat, decide_eq_true_eq] at hsize
    rw [hcodes]
    exact hsize

end Utf8

end PageInvalidation.Text
