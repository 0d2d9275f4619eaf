import PageInvalidation.Json.Reader
import PageInvalidation.Json.Writer
import PageInvalidation.Proofs.Binary64.Shortest
import PageInvalidation.Proofs.Text.NumeralText

/-! # Numbers in JSON texts

Finite floating-point numbers and integers that are not too long are read as they were written
(`ofAtom_float`, `ofAtom_int`). -/

namespace PageInvalidation.Binary64

open Text (digitValue ofDigits NumeralText)

/-- A numeral with a point or an exponent writes a decimal, in the form that JSON asks for. -/
structure Writes (t : NumeralText) (d : Decimal) : Prop where
  plain : t.whole.length = 1 ∨ (t.whole.map digitValue).head? ≠ some 0
  short : t.whole.length ≤ Text.maxDigits
  fraction_ne_nil : t.fraction ≠ some []
  pointed : t.fraction.isSome = true ∨ t.exponent.isSome = true
  value : (ofDigits (t.numeral false).digits : ℚ) * 10 ^ (t.numeral false).scale = d.digits * 10 ^ d.exponent

section Layouts

variable {d : Decimal} {ds : List Char} {e : ℤ} {width : ℕ}

theorem map_digitValue_zeros (n : ℕ) : (zeros n).map digitValue = List.replicate n 0 := List.map_replicate

theorem isDigit_zeros (n : ℕ) : ∀ c ∈ zeros n, c.isDigit = true := by
  intro c hc
  rw [List.eq_of_mem_replicate hc]
  decide

theorem exists_pointed {whole fraction : List Char} (hw : whole ≠ []) (hf : fraction ≠ [])
    (hdigits : ∀ c ∈ whole ++ fraction, c.isDigit = true)
    (hplain : whole.length = 1 ∨ (whole.map digitValue).head? ≠ some 0) (hshort : whole.length ≤ Text.maxDigits)
    (hvalue : (ofDigits ((whole ++ fraction).map digitValue) : ℚ) * 10 ^ (-(fraction.length : ℤ)) =
      d.digits * 10 ^ d.exponent) :
    ∃ t : NumeralText, whole ++ '.' :: fraction = t.chars ∧ Writes t d := by
  have hall := List.forall_mem_append.mp hdigits
  refine ⟨⟨whole, some fraction, none, hw, hall.1, ?_, nofun, nofun⟩, ?_, ⟨hplain, hshort, ?_, .inl rfl, ?_⟩⟩
  · rintro f ⟨⟩
    exact hall.2
  · simp [NumeralText.chars, NumeralText.fractionChars, NumeralText.exponentChars]
  · simpa using hf
  · rw [← hvalue, List.map_append]
    simp [NumeralText.numeral, Text.Numeral.digits, Text.Numeral.scale]

variable (hne : ds ≠ []) (hdigits : ∀ c ∈ ds, c.isDigit = true) (hvalue : ofDigits (ds.map digitValue) = d.digits)
  (hhead : (ds.map digitValue).head? ≠ some 0) (he : e = d.exponent + ds.length - 1)
include hne hdigits hvalue he

theorem writes_of_neg (hneg : e < 0) : ∃ t : NumeralText, positional ds e = t.chars ∧ Writes t d := by
  have hlen : 0 < ds.length := List.length_pos_iff.mpr hne
  obtain ⟨k, hk⟩ : ∃ k, (-e - 1).toNat = k := ⟨_, rfl⟩
  have hchars : positional ds e = ['0'] ++ '.' :: (zeros k ++ ds) := by
    rw [positional, if_pos hneg, hk]
    rfl
  rw [hchars]
  refine exists_pointed (by simp) (by simp [hne]) ?_ (.inl rfl) (by decide) ?_
  · exact List.forall_mem_append.mpr ⟨isDigit_zeros 1, List.forall_mem_append.mpr ⟨isDigit_zeros k, hdigits⟩⟩
  · have hexponent : d.exponent = -((zeros k ++ ds).length : ℤ) := by
      rw [List.length_append, zeros, List.length_replicate]
      omega
    have hzero : ofDigits (['0'].map digitValue) = 0 := rfl
    rw [hexponent, List.map_append, List.map_append, Text.ofDigits_append_append, Text.ofDigits_append_append,
      map_digitValue_zeros, Text.ofDigits_replicate_zero, hzero, hvalue]
    simp

theorem writes_of_scientific : ∃ t : NumeralText, scientific width ds e = t.chars ∧ Writes t d := by
  obtain ⟨c, cs, rfl⟩ := List.exists_cons_of_ne_nil hne
  obtain ⟨hc, hcs⟩ := List.forall_mem_cons.mp hdigits
  obtain ⟨x, hx⟩ : ∃ x, zeros (width - (Nat.toDigits 10 e.natAbs).length) ++ Nat.toDigits 10 e.natAbs = x :=
    ⟨_, rfl⟩
  have hxne : x ≠ [] := by
    rw [← hx, Ne, List.append_eq_nil_iff, not_and]
    exact fun _ => Nat.toDigits_ne_nil
  have hxdigits : ∀ c ∈ x, c.isDigit = true := by
    rw [← hx]
    exact List.forall_mem_append.mpr ⟨isDigit_zeros _, Text.isDigit_of_mem_toDigits⟩
  have hxvalue : ofDigits (x.map digitValue) = e.natAbs := by
    rw [← hx, List.map_append, Text.ofDigits_append_append, map_digitValue_zeros,
      Text.ofDigits_replicate_zero, Nat.zero_mul, Nat.zero_add, Text.ofDigits_toDigits]
  have hexponent : Text.signed (some (Text.signChar (decide (e < 0)))) e.natAbs = e :=
    Text.signed_natAbs (by simp [Text.signChar])
  -- a single digit has no point behind it
  obtain ⟨f, hfne, hfget, hfdigits, hfraction⟩ : ∃ f : Option (List Char), f ≠ some [] ∧ f.getD [] = cs ∧
      (∀ g ∈ f, ∀ c ∈ g, c.isDigit = true) ∧ NumeralText.fractionChars f =
        if (c :: cs).length ≤ 1 then [] else '.' :: (c :: cs).drop 1 := by
    cases cs with
    | nil => exact ⟨none, nofun, rfl, nofun, rfl⟩
    | cons c' cs =>
      refine ⟨some (c' :: cs), by simp, rfl, ?_, rfl⟩
      rintro g ⟨⟩
      exact hcs
  have hchars : scientific width (c :: cs) e = [c] ++ (NumeralText.fractionChars f ++
      NumeralText.exponentChars (some (decide (e < 0), x))) := by
    have hsign : Text.signChar (decide (e < 0)) = if e < 0 then '-' else '+' := by simp [Text.signChar]
    rw [hfraction, NumeralText.exponentChars, hsign, ← hx]
    simp [scientific]
  refine ⟨⟨[c], f, some (decide (e < 0), x), List.cons_ne_nil c [], by simpa using hc, hfdigits,
    by simpa using hxne, by simpa using hxdigits⟩, hchars, ⟨.inl rfl, (by decide : 1 ≤ Text.maxDigits), hfne,
    .inr rfl, ?_⟩⟩
  have hscale : e - (cs.length : ℤ) = d.exponent := by
    rw [he, List.length_cons]
    omega
  have hmap : (f.map (List.map digitValue)).getD [] = cs.map digitValue := by
    rw [← hfget]
    cases f <;> rfl
  have hall : [digitValue c] ++ cs.map digitValue = (c :: cs).map digitValue := rfl
  simp only [NumeralText.numeral, Text.Numeral.digits, Text.Numeral.scale, Option.map_some, Option.getD_some,
    List.map_cons, List.map_nil, hmap, hxvalue, hexponent, List.length_map, hscale]
  rw [hall, hvalue]

include hhead

theorem writes_of_nonneg (hnonneg : 0 ≤ e) (hshort : e < Text.maxDigits) :
    ∃ t : NumeralText, positional ds e = t.chars ∧ Writes t d := by
  have hlen : 0 < ds.length := List.length_pos_iff.mpr hne
  have hhead' : ∀ s : List Char, ((ds ++ s).map digitValue).head? ≠ some 0 := by
    intro s
    obtain ⟨c, cs, rfl⟩ := List.exists_cons_of_ne_nil hne
    exact hhead
  rw [positional, if_neg (by omega)]
  dsimp only
  split
  · obtain ⟨k, hk⟩ : ∃ k, (e + 1).toNat - ds.length = k := ⟨_, rfl⟩
    rw [hk]
    refine exists_pointed (by simp [hne]) (by simp) ?_ (.inr (hhead' _)) ?_ ?_
    · exact List.forall_mem_append.mpr ⟨List.forall_mem_append.mpr ⟨hdigits, isDigit_zeros k⟩, isDigit_zeros 1⟩
    · rw [List.length_append, zeros, List.length_replicate]
      omega
    · have hexponent : d.exponent = (k : ℤ) := by omega
      have hzero : ofDigits (['0'].map digitValue) = 0 := rfl
      rw [hexponent, List.map_append, List.map_append, Text.ofDigits_append_append,
        Text.ofDigits_append_append, map_digitValue_zeros, Text.ofDigits_replicate_zero, hzero, hvalue]
      simp
  · obtain ⟨n, hn⟩ : ∃ n, (e + 1).toNat = n := ⟨_, rfl⟩
    rw [hn]
    have hsplit : ds.take n ++ ds.drop n = ds := List.take_append_drop n ds
    have htake : ds.take n ≠ [] := by
      rw [Ne, List.take_eq_nil_iff, not_or]
      exact ⟨by omega, hne⟩
    refine exists_pointed htake ?_ (by rwa [hsplit]) (.inr ?_) ?_ ?_
    · rw [Ne, List.drop_eq_nil_iff]
      omega
    · obtain ⟨c, cs, hcs⟩ := List.exists_cons_of_ne_nil htake
      rw [← hsplit, hcs] at hhead
      rw [hcs]
      exact hhead
    · rw [List.length_take]
      omega
    · have hexponent : d.exponent = -((ds.drop n).length : ℤ) := by
        rw [List.length_drop]
        omega
      rw [hsplit, hvalue, hexponent]

end Layouts

/-- **The text of a decimal writes it.** -/
theorem exists_writes (style : Style) (hhigh : style.high ≤ Text.maxDigits) (d : Decimal) :
    ∃ t : NumeralText, style.magnitude d = t.chars ∧ Writes t d := by
  unfold Style.magnitude
  rcases Nat.eq_zero_or_pos d.digits with hzero | hpos
  · rw [hzero, if_pos (by rfl)]
    have hne : ['0'] ≠ [] := List.cons_ne_nil _ _
    have hvalue : ofDigits ((['0'] ++ ['0']).map digitValue) = d.digits := hzero.symm
    refine exists_pointed hne hne (isDigit_zeros 2) (.inl rfl) (by decide) ?_
    rw [hvalue, hzero]
    simp
  · have hzero : (d.digits == 0) = false := beq_false_of_ne hpos.ne'
    have hne : Nat.toDigits 10 d.digits ≠ [] := Nat.toDigits_ne_nil
    have hvalue := Text.ofDigits_toDigits d.digits
    have hhead := Text.head?_toDigits_ne_zero hpos
    have hdigits : ∀ c ∈ Nat.toDigits 10 d.digits, c.isDigit = true := Text.isDigit_of_mem_toDigits
    rw [hzero, if_neg Bool.false_ne_true]
    dsimp only
    split
    · rename_i hrange
      by_cases hneg : d.exponent + (Nat.toDigits 10 d.digits).length - 1 < 0
      · exact writes_of_neg hne hdigits hvalue rfl hneg
      · exact writes_of_nonneg hne hdigits hvalue hhead rfl (by omega) (by omega)
    · exact writes_of_scientific hne hdigits hvalue rfl

end PageInvalidation.Binary64

namespace PageInvalidation.Json

open Text (NumeralText digitValue)

variable {t : NumeralText} {negative : Bool} {n : ℤ} {x : Binary64}

/-! ### Numbers are atoms -/

theorem isAtomChar_of_isDigit {c : Char} (h : c.isDigit = true) : isAtomChar c = true := by
  have hrange := Char.isDigit_iff_toNat.mp h
  have hne : ∀ d : Char, d.toNat < 48 ∨ 57 < d.toNat → c ≠ d := by
    rintro d hd rfl
    have h0 : '0'.toNat = 48 := rfl
    have h9 : '9'.toNat = 57 := rfl
    omega
  simp [isAtomChar, isGap, hne]

theorem forall_mem_signedChars {P : Char → Prop} (hdigit : ∀ c, c.isDigit = true → P c)
    (hmark : ∀ c ∈ ['-', '+', '.', 'e'], P c) (negative : Bool) (t : NumeralText) :
    ∀ c ∈ t.signedChars negative, P c := by
  have hsign : ∀ c ∈ (if negative then ['-'] else []), P c := by
    cases negative with
    | true => exact List.forall_mem_singleton.mpr (hmark _ (by simp))
    | false => exact List.forall_mem_nil _
  have hfraction : ∀ c ∈ NumeralText.fractionChars t.fraction, P c := by
    intro c hc
    cases hf : t.fraction with
    | none => rw [hf] at hc; cases hc
    | some f =>
      rw [hf] at hc
      rcases List.mem_cons.mp hc with rfl | hc
      · exact hmark _ (by simp)
      · exact hdigit c (t.isDigit_fraction f hf c hc)
  have hexponent : ∀ c ∈ NumeralText.exponentChars t.exponent, P c := by
    intro c hc
    cases he : t.exponent with
    | none => rw [he] at hc; cases hc
    | some e =>
      rw [he] at hc
      rcases List.mem_cons.mp hc with rfl | hc
      · exact hmark _ (by simp)
      · rcases List.mem_cons.mp hc with rfl | hc
        · cases e.1 <;> exact hmark _ (by simp [Text.signChar])
        · exact hdigit c (t.isDigit_exponent e he c hc)
  refine List.forall_mem_append.mpr ⟨hsign, List.forall_mem_append.mpr ⟨fun c hc => ?_, ?_⟩⟩
  · exact hdigit c (t.isDigit_whole c hc)
  · exact List.forall_mem_append.mpr ⟨hfraction, hexponent⟩

theorem isAtomChar_signedChars (negative : Bool) (t : NumeralText) :
    ∀ c ∈ t.signedChars negative, isAtomChar c = true :=
  forall_mem_signedChars (fun _ => isAtomChar_of_isDigit) (List.all_eq_true.mp (by decide)) negative t

theorem signedChars_ne_nil (negative : Bool) (t : NumeralText) : t.signedChars negative ≠ [] := by
  simp [NumeralText.signedChars, NumeralText.chars, t.whole_ne_nil]

theorem ofAtom_signedChars (d : Dialect) (negative : Bool) (t : NumeralText) :
    ofAtom d (t.signedChars negative) = ofNumeral d (t.numeral negative) := by
  obtain ⟨c, s, hs⟩ := List.exists_cons_of_ne_nil t.whole_ne_nil
  have hc : c.isDigit = true := t.isDigit_whole c (by rw [hs]; exact List.mem_cons_self)
  have hchars : ∃ s', t.signedChars negative = if negative then '-' :: c :: s' else c :: s' := by
    refine ⟨s ++ (NumeralText.fractionChars t.fraction ++ NumeralText.exponentChars t.exponent), ?_⟩
    rw [NumeralText.signedChars, NumeralText.chars, hs]
    cases negative <;> rfl
  obtain ⟨s', hs'⟩ := hchars
  have hword : ∀ w : List Char, (w.head?.any fun c => !c.isDigit && c != '-') = true →
      t.signedChars negative ≠ w := by
    rintro (_ | ⟨c', w⟩) hhead heq
    · cases hhead
    · obtain ⟨hc', hminus⟩ : c'.isDigit = false ∧ c' ≠ '-' := by simpa using hhead
      rw [hs'] at heq
      cases negative with
      | true => exact hminus (List.cons.inj heq).1.symm
      | false =>
        rw [← (List.cons.inj heq).1, hc] at hc'
        cases hc'
  have hminus : t.signedChars negative ≠ "-Infinity".toList := by
    intro heq
    rw [hs'] at heq
    cases negative with
    | true =>
      obtain ⟨rfl, -⟩ := List.cons.inj (List.cons.inj heq).2
      cases hc
    | false =>
      obtain ⟨rfl, -⟩ := List.cons.inj heq
      cases hc
  unfold ofAtom
  rw [if_neg (hword _ (by decide)), if_neg (hword _ (by decide)), if_neg (hword _ (by decide)),
    if_neg (hword _ (by decide)), if_neg (hword _ (by decide)), if_neg hminus, NumeralText.read?_chars]
  rfl

theorem isNumber_numeral (negative : Bool) (hplain : t.whole.length = 1 ∨ (t.whole.map digitValue).head? ≠ some 0)
    (hfraction : t.fraction ≠ some []) : isNumber (t.numeral negative) = true := by
  have hsign : (t.numeral negative).sign ≠ some '+' := by cases negative <;> simp [NumeralText.numeral]
  have hwhole : (t.numeral negative).whole.isEmpty = false := by
    simpa [NumeralText.numeral] using t.whole_ne_nil
  have hfraction' : (t.numeral negative).fraction ≠ some [] := by
    cases hf : t.fraction with
    | none => simp [NumeralText.numeral, hf]
    | some f =>
      have hne : f ≠ [] := fun hnil => hfraction (by rw [hf, hnil])
      simp [NumeralText.numeral, hf, hne]
  have hzero : ((t.numeral negative).whole.length == 1 || (t.numeral negative).whole.head? != some 0) = true := by
    rw [Bool.or_eq_true, beq_iff_eq, bne_iff_ne]
    refine hplain.imp (fun h => ?_) id
    rwa [NumeralText.numeral, List.length_map]
  rw [isNumber, hzero, hwhole, bne_iff_ne.mpr hsign, bne_iff_ne.mpr hfraction']
  rfl

theorem isNegative_numeral (negative : Bool) (t : NumeralText) :
    (t.numeral negative).isNegative = negative := by
  cases negative <;> rfl

/-- **A finite number is read as it was written.** -/
theorem ofAtom_float (d : Dialect) (style : Binary64.Style) (hhigh : style.high ≤ Text.maxDigits)
    (hx : x.isFinite = true) : ∃ t : NumeralText, style.render x = t.signedChars x.isNegative ∧
      ofAtom d (style.render x) = some (.float x) := by
  obtain ⟨t, ht, hw⟩ := Binary64.exists_writes style hhigh x.shortest
  have hfinite : x.magnitude < Binary64.infinityMagnitude := of_decide_eq_true hx
  have hnan : x.isNaN = false := decide_eq_false (by omega)
  have hinfinite : x.isInfinite = false := beq_false_of_ne hfinite.ne
  have hrender : style.render x = t.signedChars x.isNegative := by
    rw [Binary64.Style.render, hnan, hinfinite, ht]
    rfl
  refine ⟨t, hrender, ?_⟩
  have hnumber := isNumber_numeral x.isNegative hw.plain hw.fraction_ne_nil
  have hshort : ¬Text.maxDigits < (t.numeral x.isNegative).whole.length := by
    rw [NumeralText.numeral, List.length_map]
    exact not_lt.mpr hw.short
  have hwhole : (t.numeral x.isNegative).isWhole = false := by
    rw [Text.Numeral.isWhole, NumeralText.numeral, Option.isNone_map, Option.isNone_map, Bool.and_eq_false_iff]
    exact hw.pointed.imp (by simp) (by simp)
  have hvalue : Binary64.ofDecimal x.isNegative (Text.ofDigits (t.numeral x.isNegative).digits)
      (t.numeral x.isNegative).scale = x :=
    (Binary64.ofDecimal_congr x.isNegative hw.value).trans (Binary64.ofDecimal_shortest hx)
  rw [hrender, ofAtom_signedChars, ofNumeral, hnumber, hwhole, isNegative_numeral, hvalue]
  simp [hshort]

/-- The digits of a natural number. -/
def decimalText (n : ℕ) : NumeralText :=
  ⟨Nat.toDigits 10 n, none, none, Nat.toDigits_ne_nil, Text.isDigit_of_mem_toDigits, nofun, nofun, nofun⟩

theorem toList_toString_int (n : ℤ) : (toString n).toList = (decimalText n.natAbs).signedChars (n < 0) := by
  have hnat : ∀ m : ℕ, (toString m).toList = Nat.toDigits 10 m := fun m => String.toList_ofList
  rw [NumeralText.signedChars, NumeralText.chars, decimalText, NumeralText.fractionChars, NumeralText.exponentChars]
  cases n with
  | ofNat m =>
    have hnonneg : decide (Int.ofNat m < 0) = false := decide_eq_false (Int.not_lt.mpr (Int.natCast_nonneg m))
    have hstring : toString (Int.ofNat m) = toString m := rfl
    rw [hnonneg, hstring, hnat]
    simp
  | negSucc m =>
    have hneg : decide (Int.negSucc m < 0) = true := decide_eq_true (Int.negSucc_lt_zero m)
    have hstring : toString (Int.negSucc m) = "-" ++ toString (m + 1) := rfl
    rw [hneg, hstring, String.toList_append, hnat]
    simp

/-- **An integer that is not too long is read as it was written.** -/
theorem ofAtom_int (d : Dialect) (hn : (Nat.toDigits 10 n.natAbs).length ≤ Text.maxDigits) :
    ofAtom d (toString n).toList = some (.int n) := by
  obtain ⟨t, ht⟩ : ∃ t, decimalText n.natAbs = t := ⟨_, rfl⟩
  have hnumber : isNumber (t.numeral (n < 0)) = true := by
    refine isNumber_numeral _ ?_ (by rw [← ht]; rintro ⟨⟩)
    rw [← ht]
    rcases Nat.eq_zero_or_pos n.natAbs with hzero | hpos
    · left
      rw [hzero]
      rfl
    · exact .inr (Text.head?_toDigits_ne_zero hpos)
  have hshort : ¬Text.maxDigits < (t.numeral (n < 0)).whole.length := by
    rw [NumeralText.numeral, List.length_map, ← ht]
    exact not_lt.mpr hn
  have hwhole : (t.numeral (n < 0)).isWhole = true := by
    rw [← ht]
    rfl
  have hvalue : Text.signed (t.numeral (n < 0)).sign (Text.ofDigits (t.numeral (n < 0)).whole) = n := by
    have hdigits : Text.ofDigits (t.numeral (n < 0)).whole = n.natAbs := by
      rw [← ht]
      exact Text.ofDigits_toDigits n.natAbs
    rw [hdigits]
    exact Text.signed_natAbs (by simp [NumeralText.numeral])
  rw [toList_toString_int, ht, ofAtom_signedChars, ofNumeral, hnumber, hwhole, hvalue]
  simp [hshort]

end PageInvalidation.Json
