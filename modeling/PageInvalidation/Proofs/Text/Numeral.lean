import Mathlib.Data.List.TakeWhile
import Mathlib.Data.Nat.Init
import Mathlib.Tactic.IntervalCases
import PageInvalidation.Text.Numeral

/-! # Numerals and what they write

The digits at the start of a text are read as their values (`spanDigits_append`), and the digits that a number
is written with write it (`ofDigits_toDigits`). A text of digit characters of any script is a free-standing
numeral if and only if each of them has a decimal value and they are not too many
(`readInteger_of_decimals`, `readInteger_ne_ok`). -/

namespace PageInvalidation.Text

/-! ### Digits of the ASCII range -/

/-- The value of a digit character. -/
def digitValue (c : Char) : ℕ := c.toNat - '0'.toNat

theorem asciiDigit?_of_isDigit {c : Char} (h : c.isDigit = true) : asciiDigit? c = some (digitValue c) :=
  if_pos h

theorem asciiDigit?_of_not_isDigit {c : Char} (h : c.isDigit = false) : asciiDigit? c = none := by
  rw [asciiDigit?, h]
  rfl

theorem digitValue_digitChar {d : ℕ} (h : d < 10) : digitValue (Nat.digitChar d) = d := by
  interval_cases d <;> rfl

/-- **The digits at the start of a text**, read as their values. -/
theorem spanDigits_append {t : List Char} (ht : ∀ c ∈ t.head?, c.isDigit = false) :
    ∀ {s : List Char}, (∀ c ∈ s, c.isDigit = true) → spanDigits (s ++ t) = (s.map digitValue, t)
  | [], _ => by
    cases t with
    | nil => rfl
    | cons c t =>
      rw [List.nil_append, spanDigits, asciiDigit?_of_not_isDigit (ht c rfl)]
      rfl
  | c :: s, h => by
    obtain ⟨hc, hs⟩ := List.forall_mem_cons.mp h
    rw [List.cons_append, spanDigits, asciiDigit?_of_isDigit hc]
    dsimp only
    rw [spanDigits_append ht hs]
    rfl

theorem spanDigits_of_isDigit {s : List Char} (h : ∀ c ∈ s, c.isDigit = true) :
    spanDigits s = (s.map digitValue, []) := by
  have hs := spanDigits_append (t := []) (by simp) h
  rwa [List.append_nil] at hs

theorem isDigit_digitChar {d : ℕ} (h : d < 10) : (Nat.digitChar d).isDigit = true := by
  interval_cases d <;> rfl

/-! ### The number that digits write -/

theorem ofDigits_append (ds : List ℕ) (d : ℕ) : ofDigits (ds ++ [d]) = 10 * ofDigits ds + d := by
  rw [ofDigits, List.foldl_append]
  rfl

/-- **The digits of a number write it.** -/
theorem ofDigits_toDigits (n : ℕ) : ofDigits ((Nat.toDigits 10 n).map digitValue) = n := by
  induction n using Nat.strongRecOn with
  | _ n ih =>
    by_cases hn : n < 10
    · rw [Nat.toDigits_of_lt_base hn, List.map_singleton, digitValue_digitChar hn]
      simp [ofDigits]
    · have hlast : n % 10 < 10 := Nat.mod_lt n (by omega)
      rw [Nat.toDigits_of_base_le (by omega) (by omega), List.map_append, List.map_singleton,
        digitValue_digitChar hlast, ofDigits_append, ih (n / 10) (by omega)]
      omega

theorem isDigit_of_mem_toDigits {n : ℕ} : ∀ c ∈ Nat.toDigits 10 n, c.isDigit = true := fun _ hc =>
  Nat.isDigit_of_mem_toDigits (by omega) (by omega) hc

/-! ### Digits of all scripts -/

/-- The decimal values of the characters of a text, if all have one. -/
def decimals? (s : List Char) : Option (List ℕ) := s.mapM decimalValue?

theorem decimals?_cons {c : Char} {s : List Char} {ds : List ℕ} : decimals? (c :: s) = some ds ↔
    ∃ d ds', decimalValue? c = some d ∧ decimals? s = some ds' ∧ ds = d :: ds' := by
  unfold decimals?
  rw [List.mapM_cons]
  constructor
  · intro h
    obtain ⟨d, hd, h⟩ := Option.bind_eq_some_iff.mp h
    obtain ⟨ds', hds', h⟩ := Option.bind_eq_some_iff.mp h
    exact ⟨d, ds', hd, hds', (Option.some.inj h).symm⟩
  · rintro ⟨d, ds', hd, hds', rfl⟩
    exact Option.bind_eq_some_iff.mpr ⟨d, hd, Option.bind_eq_some_iff.mpr ⟨ds', hds', rfl⟩⟩

theorem decimals?_of_isDigit : ∀ {s : List Char}, (∀ c ∈ s, c.isDigit = true) →
    decimals? s = some (s.map digitValue)
  | [], _ => rfl
  | c :: s, h => by
    have hc : 48 ≤ c.toNat ∧ c.toNat ≤ 57 := by
      simpa [Char.isDigit, UInt32.le_iff_toNat_le] using h c List.mem_cons_self
    have hzero : decimalZeros.find? (fun first => first ≤ c.toNat && c.toNat < first + 10) = some 48 := by
      rw [decimalZeros, List.find?_cons_of_pos]
      simp only [Bool.and_eq_true, decide_eq_true_eq]
      omega
    have hvalue : decimalValue? c = some (digitValue c) := by
      rw [decimalValue?, hzero]
      rfl
    have ih := decimals?_of_isDigit fun c hc => h c (List.mem_cons_of_mem _ hc)
    exact decimals?_cons.mpr ⟨_, _, hvalue, ih, rfl⟩

/-- No decimal digit is a blank, and those of the ASCII range start at its zero. -/
theorem decimalZeros_apart : ∀ first ∈ decimalZeros, ∀ d < 10,
    isBlank (Char.ofNat (first + d)) = false ∧ (first + d < 127 → first = '0'.toNat) := by
  decide

theorem plainChar_of_decimalValue? {c : Char} {d : ℕ} (h : decimalValue? c = some d) :
    plainChar c = Nat.digitChar d ∧ d < 10 := by
  obtain ⟨first, hfirst, hd⟩ := Option.map_eq_some_iff.mp h
  have hrange := List.find?_some hfirst
  simp only [Bool.and_eq_true, decide_eq_true_eq] at hrange
  have hc : Char.ofNat (first + d) = c := by
    rw [← hd, Nat.add_sub_cancel' hrange.1, Char.ofNat_toNat]
  have hlt : d < 10 := by omega
  obtain ⟨hblank, hascii⟩ := decimalZeros_apart first (List.mem_of_find?_eq_some hfirst) d hlt
  have hdigit : Char.ofNat ('0'.toNat + d) = Nat.digitChar d := by interval_cases d <;> rfl
  rw [hc] at hblank
  refine ⟨?_, hlt⟩
  unfold plainChar
  rw [h, hblank, ← hdigit]
  split
  · rw [← hascii (by omega), hc]
  · rfl

theorem lt_of_mem_decimals? : ∀ {s : List Char} {ds : List ℕ}, decimals? s = some ds → ∀ d ∈ ds, d < 10
  | [], _, h => by cases h; simp
  | c :: s, ds, h => by
    obtain ⟨d, ds', hd, hds', rfl⟩ := decimals?_cons.mp h
    exact List.forall_mem_cons.mpr ⟨(plainChar_of_decimalValue? hd).2, lt_of_mem_decimals? hds'⟩

/-- Digits without a decimal value lie beyond the ASCII range, and none is a blank. -/
theorem plainDigitRanges_apart : ∀ r ∈ plainDigitRanges, 127 ≤ r.1 ∧
    ∀ i < r.2 + 1 - r.1, isBlank (Char.ofNat (r.1 + i)) = false := by
  decide

theorem plainChar_of_isDigit {c : Char} (h : isDigit c = true) (hd : decimalValue? c = none) :
    plainChar c = c ∧ 127 ≤ c.toNat := by
  rw [isDigit, hd] at h
  obtain ⟨r, hr, hrange⟩ := List.any_eq_true.mp h
  simp only [Bool.and_eq_true, decide_eq_true_eq] at hrange
  obtain ⟨hlow, hblanks⟩ := plainDigitRanges_apart r hr
  have hblank := hblanks (c.toNat - r.1) (by omega)
  rw [Nat.add_sub_cancel' hrange.1, Char.ofNat_toNat] at hblank
  have hc : 127 ≤ c.toNat := by omega
  refine ⟨?_, hc⟩
  rw [plainChar, if_neg (by omega), if_neg (by simp [hblank]), hd]

theorem isDigit_or_far_plainChar {s : List Char} (hs : ∀ c ∈ s, isDigit c = true) :
    ∀ c ∈ s.map plainChar, c.isDigit = true ∨ 127 ≤ c.toNat := by
  intro c hc
  obtain ⟨b, hb, rfl⟩ := List.mem_map.mp hc
  cases hd : decimalValue? b with
  | none =>
    obtain ⟨hplain, hfar⟩ := plainChar_of_isDigit (hs b hb) hd
    exact .inr (hplain.symm ▸ hfar)
  | some d =>
    obtain ⟨hplain, hlt⟩ := plainChar_of_decimalValue? hd
    exact .inl (hplain.symm ▸ isDigit_digitChar hlt)

theorem not_isGrouped_of_far {c : Char} (h : 127 ≤ c.toNat) : isGrouped c = false := by
  have hne : (c == '_') = false := by
    rw [beq_eq_false_iff_ne]
    rintro rfl
    exact absurd h (by decide)
  have hdigit : c.isDigit = false := by
    rw [Bool.eq_false_iff, Ne, Char.isDigit_iff_toNat]
    have h9 : '9'.toNat = 57 := rfl
    omega
  rw [isGrouped, hne, hdigit]
  rfl

/-! ### Free-standing numerals -/

theorem trim_eq_self {α : Type} {p : α → Bool} {s : List α} (h : ∀ c ∈ s, p c = false) : trim p s = s := by
  have hdrop : ∀ {t : List α}, (∀ c ∈ t, p c = false) → t.dropWhile p = t := by
    intro t ht
    cases t with
    | nil => rfl
    | cons c t => rw [List.dropWhile_cons, ht c List.mem_cons_self, if_neg Bool.false_ne_true]
  rw [trim, hdrop h, hdrop (by simpa using h), List.reverse_reverse]

theorem trim_append_append {α : Type} {p : α → Bool} {before s after : List α} (hbefore : ∀ c ∈ before, p c = true)
    (hafter : ∀ c ∈ after, p c = true) : trim p (before ++ s ++ after) = trim p s := by
  rw [trim, List.append_assoc, List.dropWhile_append_of_pos hbefore, List.dropWhile_append]
  split
  · rename_i hempty
    have hnil : after.dropWhile p = [] := List.dropWhile_eq_nil_iff.mpr hafter
    rw [trim, hnil, List.isEmpty_iff.mp hempty]
  · rw [List.reverse_append, List.dropWhile_append_of_pos (by simpa using hafter), trim]

theorem getLast?_trim {α : Type} {p : α → Bool} {s : List α} {c : α} (h : (trim p s).getLast? = some c) :
    p c = false := by
  have hhead := List.head?_dropWhile_not p (s.dropWhile p).reverse
  rw [trim, List.getLast?_reverse] at h
  rw [h] at hhead
  exact hhead

theorem ungroupedAfter_of_isDigit : ∀ {s : List Char} {previous : Char}, previous ≠ '_' →
    (∀ c ∈ s, c.isDigit = true) → ungroupedAfter previous s = some s
  | [], _, hp, _ => by rw [ungroupedAfter, if_neg (by simpa using hp)]
  | c :: s, _, hp, h => by
    obtain ⟨hc, hs⟩ := List.forall_mem_cons.mp h
    have hne : c ≠ '_' := by
      rintro rfl
      exact absurd hc (by decide)
    rw [ungroupedAfter, if_neg (by simpa using hne), if_neg (by simp [hp]),
      ungroupedAfter_of_isDigit hne hs]
    rfl

theorem not_isPadding_or_sign {c : Char} (h : c.isDigit = true ∨ 127 ≤ c.toNat) :
    isPadding c = false ∧ (c == '+' || c == '-') = false := by
  have hrange : 48 ≤ c.toNat := by
    rcases h with h | h
    · exact (Char.isDigit_iff_toNat.mp h).1
    · omega
  have hne : ∀ d : Char, d.toNat < 48 → (c == d) = false := by
    intro d hd
    rw [beq_eq_false_iff_ne]
    rintro rfl
    omega
  constructor
  · rw [isPadding, hne ' ' (by decide), Bool.false_or, Bool.and_eq_false_iff]
    exact .inr (decide_eq_false (by omega))
  · rw [hne '+' (by decide), hne '-' (by decide)]
    rfl

/-- A text in which digits are followed by something else is no numeral; digits alone are one, if they are not
too many. -/
theorem readInteger_of_plain {s digits rest : List Char} (hs : s.map plainChar = digits ++ rest)
    (hdigits : ∀ c ∈ digits, c.isDigit = true) (hrest : ∀ c ∈ rest, c.isDigit = true ∨ 127 ≤ c.toNat)
    (hhead : ∀ c ∈ rest.head?, isGrouped c = false) :
    readInteger s =
      if maxDigits < digits.length then .error (.tooLong digits.length)
      else if digits.isEmpty || !rest.isEmpty then .error .malformed
      else .ok (ofDigits (digits.map digitValue)) := by
  have hall : ∀ c ∈ digits ++ rest, c.isDigit = true ∨ 127 ≤ c.toNat := by
    intro c hc
    rcases List.mem_append.mp hc with hc | hc
    · exact .inl (hdigits c hc)
    · exact hrest c hc
  have hplain : plainForm s = digits ++ rest := by
    rw [plainForm, hs, trim_eq_self fun c hc => (not_isPadding_or_sign (hall c hc)).1]
  have hsign : spanSign (digits ++ rest) = (none, digits ++ rest) := by
    cases h : digits ++ rest with
    | nil => rfl
    | cons c t =>
      have hc := (not_isPadding_or_sign (hall c (h ▸ List.mem_cons_self))).2
      rw [spanSign, hc, if_neg Bool.false_ne_true]
  have hgrouped : ∀ c ∈ digits, isGrouped c = true := fun c hc => by rw [isGrouped, hdigits c hc]; rfl
  have htake : (digits ++ rest).takeWhile isGrouped = digits := by
    rw [List.takeWhile_append_of_pos hgrouped]
    cases rest with
    | nil => simp
    | cons c t => rw [List.takeWhile_cons, hhead c rfl]; simp
  have hdrop : (digits ++ rest).dropWhile isGrouped = rest := by
    rw [List.dropWhile_append_of_pos hgrouped]
    cases rest with
    | nil => rfl
    | cons c t => rw [List.dropWhile_cons, hhead c rfl]; rfl
  have hrun : ungrouped digits = some digits := ungroupedAfter_of_isDigit (by decide) hdigits
  unfold readInteger
  rw [hplain, hsign]
  dsimp only
  rw [htake, hdrop, hrun]
  dsimp only
  rw [spanDigits_of_isDigit hdigits, List.length_map, List.isEmpty_map]
  rfl

/-- Decimal digits of any script, if they are not too many, are a numeral. -/
theorem readInteger_of_decimals {s : List Char} {ds : List ℕ} (hs : s ≠ []) (hds : decimals? s = some ds) :
    readInteger s = if maxDigits < ds.length then .error (.tooLong ds.length) else .ok (ofDigits ds) := by
  have hplain : ∀ {s : List Char} {ds : List ℕ}, decimals? s = some ds →
      s.map plainChar = ds.map Nat.digitChar ∧ ∀ d ∈ ds, d < 10 := by
    intro s
    induction s with
    | nil =>
      rintro ds ⟨⟩
      exact ⟨rfl, by simp⟩
    | cons c s ih =>
      intro ds h
      obtain ⟨d, ds', hd, hds', rfl⟩ := decimals?_cons.mp h
      obtain ⟨hc, hlt⟩ := plainChar_of_decimalValue? hd
      obtain ⟨ih, hlts⟩ := ih hds'
      exact ⟨by rw [List.map_cons, List.map_cons, hc, ih], by simpa using ⟨hlt, hlts⟩⟩
  obtain ⟨hmap, hlt⟩ := hplain hds
  have hdigits : ∀ c ∈ ds.map Nat.digitChar, c.isDigit = true := by
    intro c hc
    obtain ⟨d, hd, rfl⟩ := List.mem_map.mp hc
    exact isDigit_digitChar (hlt d hd)
  have hvalues : (ds.map Nat.digitChar).map digitValue = ds := by
    rw [List.map_map]
    exact (List.map_congr_left fun d hd => digitValue_digitChar (hlt d hd)).trans (List.map_id ds)
  have hne : ds ≠ [] := by
    rintro rfl
    exact hs (List.map_eq_nil_iff.mp hmap)
  have hplain : s.map plainChar = ds.map Nat.digitChar ++ [] := by rw [hmap, List.append_nil]
  rw [readInteger_of_plain hplain hdigits (by simp) (by simp), hvalues, List.length_map, List.isEmpty_map,
    List.isEmpty_eq_false_iff.mpr hne]
  rfl

theorem exists_of_decimals?_eq_none : ∀ {s : List Char}, decimals? s = none →
    ∃ c ∈ s, decimalValue? c = none
  | [], h => by cases h
  | c :: s, h => by
    cases hc : decimalValue? c with
    | none => exact ⟨c, List.mem_cons_self, hc⟩
    | some d =>
      have hs : decimals? s = none := by
        rw [Option.eq_none_iff_forall_ne_some]
        intro ds hds
        rw [decimals?_cons.mpr ⟨d, ds, hc, hds, rfl⟩] at h
        cases h
      obtain ⟨c', hc', hnone⟩ := exists_of_decimals?_eq_none hs
      exact ⟨c', List.mem_cons_of_mem c hc', hnone⟩

theorem readInteger_ne_ok {s : List Char} (hs : ∀ c ∈ s, isDigit c = true) (hds : decimals? s = none)
    (n : ℤ) : readInteger s ≠ .ok n := by
  have hsolid := isDigit_or_far_plainChar hs
  obtain ⟨c, hc, hnone⟩ := exists_of_decimals?_eq_none hds
  obtain ⟨hplain, hc127⟩ := plainChar_of_isDigit (hs c hc) hnone
  have hrest : (s.map plainChar).dropWhile Char.isDigit ≠ [] := by
    rw [Ne, List.dropWhile_eq_nil_iff]
    intro hall
    have hdigit := hall c (List.mem_map.mpr ⟨c, hc, hplain⟩)
    have hgrouped := not_isGrouped_of_far hc127
    rw [isGrouped, hdigit] at hgrouped
    cases hgrouped
  have hhead : ∀ c ∈ ((s.map plainChar).dropWhile Char.isDigit).head?, isGrouped c = false := by
    intro c hc
    have hnot := List.head?_dropWhile_not Char.isDigit (s.map plainChar)
    rw [Option.mem_def.mp hc] at hnot
    have hmem : c ∈ s.map plainChar :=
      (List.dropWhile_sublist _).subset (List.mem_of_mem_head? hc)
    rcases hsolid c hmem with h | h
    · simp [h] at hnot
    · exact not_isGrouped_of_far h
  rw [readInteger_of_plain (List.takeWhile_append_dropWhile (p := Char.isDigit)).symm
    (fun c hc => List.mem_takeWhile_imp hc)
    (fun c hc => hsolid c ((List.dropWhile_sublist _).subset hc)) hhead]
  rw [List.isEmpty_eq_false_iff.mpr hrest]
  split
  · exact nofun
  · rw [Bool.not_false, Bool.or_true, if_pos rfl]
    exact nofun

end PageInvalidation.Text
