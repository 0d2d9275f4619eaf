import PageInvalidation.Json.Writer
import PageInvalidation.Proofs.Json.Number
import PageInvalidation.Proofs.Keyed
import PageInvalidation.Proofs.Text.CodeText

/-! # JSON texts read back

A value without lone surrogates whose numbers are finite or not too long, and that does not nest too deep, is read
from its text as it was written, in every layout that a reader can follow and by every reader (`read_written`). The
reader is followed through the characters of a value in any open containers: at their end it stands behind the value,
or still inside a number or a word that the next character completes. -/

namespace PageInvalidation.Json

/-! ### Values that texts carry -/

mutual

/-- A value that a text carries: its numbers are finite or not too long, no surrogate stands alone in its texts, and
the names in each object are distinct. -/
def Portable : Value → Prop
  | .int n => Text.IsShort n
  | .float x => x.isFinite = true
  | .str s => Text.CodeText.isScalar s = true
  | .arr items => ItemsPortable items
  | .obj members => (members.map Prod.fst).Nodup ∧ MembersPortable members
  | _ => True

/-- Items that a text carries. -/
def ItemsPortable : List Value → Prop
  | [] => True
  | v :: rest => v.Portable ∧ ItemsPortable rest

/-- Members that a text carries. -/
def MembersPortable : Members → Prop
  | [] => True
  | (k, v) :: rest => Text.CodeText.isScalar k = true ∧ v.Portable ∧ MembersPortable rest

end

mutual

/-- Whether a text carries a value can be decided. -/
def decidablePortable : ∀ v : Value, Decidable v.Portable
  | .null | .bool _ => isTrue trivial
  | .int n => inferInstanceAs (Decidable (Text.IsShort n))
  | .str _ => inferInstanceAs (Decidable (_ = _))
  | .float _ => inferInstanceAs (Decidable (_ = _))
  | .arr items => decidableItemsPortable items
  | .obj members =>
    have := decidableMembersPortable members
    inferInstanceAs (Decidable (_ ∧ _))

/-- Whether a text carries items can be decided. -/
def decidableItemsPortable : ∀ items : List Value, Decidable (ItemsPortable items)
  | [] => isTrue trivial
  | v :: rest =>
    have := decidablePortable v
    have := decidableItemsPortable rest
    inferInstanceAs (Decidable (_ ∧ _))

/-- Whether a text carries members can be decided. -/
def decidableMembersPortable : ∀ members : Members, Decidable (MembersPortable members)
  | [] => isTrue trivial
  | (_, v) :: rest =>
    have := decidablePortable v
    have := decidableMembersPortable rest
    inferInstanceAs (Decidable (_ ∧ _ ∧ _))

end

instance (v : Value) : Decidable v.Portable := v.decidablePortable

mutual

theorem withoutRepeats_of_portable : ∀ v : Value, v.Portable → v.withoutRepeats = v
  | .null, _ => rfl
  | .bool _, _ => rfl
  | .int _, _ => rfl
  | .float _, _ => rfl
  | .str _, _ => rfl
  | .arr items, h => congrArg Json.arr (itemsWithoutRepeats_of_portable items h)
  | .obj members, h => by
    rw [withoutRepeats, membersWithoutRepeats_of_portable members h.2, distinctBy_of_nodup Prod.fst h.1]

theorem itemsWithoutRepeats_of_portable : ∀ items : List Value, ItemsPortable items →
    itemsWithoutRepeats items = items
  | [], _ => rfl
  | v :: rest, h => by
    rw [itemsWithoutRepeats, withoutRepeats_of_portable v h.1, itemsWithoutRepeats_of_portable rest h.2]

theorem membersWithoutRepeats_of_portable : ∀ members : Members, MembersPortable members →
    membersWithoutRepeats members = members
  | [], _ => rfl
  | (k, v) :: rest, h => by
    rw [membersWithoutRepeats, withoutRepeats_of_portable v h.2.1,
      membersWithoutRepeats_of_portable rest h.2.2]

end

/-! ### Following the reader -/

section Feeding

variable {d : Dialect} {s s' : State} {c : Char} {cs cs' : List Char}

/-- The state after some characters. -/
def feed (d : Dialect) (s : State) (cs : List Char) : Except ReadError State := cs.foldlM (step d) s

theorem feed_cons (h : step d s c = .ok s') (cs : List Char) : feed d s (c :: cs) = feed d s' cs := by
  unfold feed
  rw [List.foldlM_cons, h]
  rfl

theorem feed_append (h : feed d s cs = .ok s') (cs' : List Char) : feed d s (cs ++ cs') = feed d s' cs' := by
  unfold feed at *
  rw [List.foldlM_append, h]
  rfl

/-- A value has ended: it is complete, or a number or a word that the next character completes. -/
def Ended (d : Dialect) (stack : List Frame) (v : Value) (s : State) : Prop :=
  s = complete stack v ∨ ∃ reversed, s = ⟨stack, .atom reversed⟩ ∧ ofAtom d reversed.reverse = some v

theorem step_complete (stack : List Frame) (v : Value) (c : Char) :
    step d (complete stack v) c = afterValue (complete stack v) c := by
  rcases stack with _ | ⟨_ | _, stack⟩ <;> rfl

theorem Ended.step {stack : List Frame} {v : Value} (h : Ended d stack v s) (hc : isAtomChar c = false) :
    step d s c = step d (complete stack v) c := by
  rcases h with rfl | ⟨reversed, rfl, hv⟩
  · rfl
  · have hatom : Json.step d ⟨stack, .atom reversed⟩ c =
        if isAtomChar c then .ok ⟨stack, .atom (c :: reversed)⟩
        else closeAtom d stack reversed >>= fun s => afterValue s c := rfl
    rw [hatom, hc, if_neg Bool.false_ne_true, closeAtom, hv, step_complete]
    rfl

theorem Ended.finish {v : Value} (h : Ended d [] v s) : finish d s = .ok v := by
  rcases h with rfl | ⟨reversed, rfl, hv⟩
  · rfl
  · dsimp only [Json.finish]
    rw [hv]

end Feeding

/-! ### Layouts and readers -/

/-- Readers can follow a layout: only blanks stand behind its commas and colons, it escapes control characters, and
it does not write numbers with more digits than are read. -/
structure Layout.Readable (l : Layout) : Prop where
  comma : ∃ gaps, (∀ c ∈ gaps, isGap c = true) ∧ l.comma = ',' :: gaps
  colon : ∃ gaps, (∀ c ∈ gaps, isGap c = true) ∧ l.colon = ':' :: gaps
  escapes : ∀ c : Char, c.toNat < 0x20 → l.escapes c = true
  numbers : l.numbers.high ≤ Text.maxDigits

theorem readable_ascii : ascii.Readable where
  comma := ⟨[' '], List.forall_mem_singleton.mpr rfl, rfl⟩
  colon := ⟨[' '], List.forall_mem_singleton.mpr rfl, rfl⟩
  escapes _ h := Bool.or_eq_true_iff.mpr (.inl (decide_eq_true h))
  numbers := by decide

/-- How deep a value may be that the reader takes. -/
def Dialect.room (d : Dialect) : ℕ := if d.countsEmpty then d.limit else d.limit + 1

/-! ### Texts -/

/-- The letters of the escapes that have one. -/
def escapeLetters : List Char := ['"', '\\', 'b', 'f', 'n', 'r', 't']

/-- **How a character is written**: with a letter, with its number, or as it is. -/
theorem Layout.char_cases (l : Layout) (c : Char) :
    (∃ letter ∈ escapeLetters, shortEscape? letter = some c ∧ l.char c = ['\\', letter]) ∨
      (l.escapes c = true ∧ l.char c = numericEscape c) ∨
        ((c == '"') = false ∧ (c == '\\') = false ∧ l.escapes c = false ∧ l.char c = [c]) := by
  unfold Layout.char
  split
  · rename_i h
    rcases Bool.or_eq_true_iff.mp h with h | h
    · obtain rfl := beq_iff_eq.mp h
      exact .inl ⟨'"', by simp [escapeLetters], rfl, rfl⟩
    · obtain rfl := beq_iff_eq.mp h
      exact .inl ⟨'\\', by simp [escapeLetters], rfl, rfl⟩
  rename_i hquote
  obtain ⟨hquote, hbackslash⟩ := Bool.or_eq_false_iff.mp (Bool.eq_false_iff.mpr hquote)
  -- the five control characters with a letter of their own
  iterate 5
    split
    · rename_i h
      obtain rfl := beq_iff_eq.mp h
      exact .inl ⟨_, by simp [escapeLetters], rfl, rfl⟩
  split
  · rename_i h
    exact .inr (.inl ⟨h, rfl⟩)
  · rename_i h
    exact .inr (.inr ⟨hquote, hbackslash, Bool.eq_false_iff.mpr h, rfl⟩)

section Texts

variable (d : Dialect) (stack : List Frame) (role : Role) (reversed : Text.CodeText)

theorem hexValue?_hexDigit {n : ℕ} (h : n < 16) : Text.hexValue? (Text.hexDigit n) = some n := by
  interval_cases n <;> rfl

theorem feed_hexDigits {n : ℕ} (h : n < 65536) :
    feed d ⟨stack, .text role reversed (.unit 0 0)⟩ (Text.hexDigits 4 n) =
      .ok ⟨stack, .text role (Text.CodeText.pushEscaped reversed (.ofUnit n)) .plain⟩ := by
  have hdigit : ∀ m, Text.hexValue? (Text.hexDigit (m % 16)) = some (m % 16) := fun m =>
    hexValue?_hexDigit (Nat.mod_lt m (by omega))
  have hmore : ∀ {count : ℕ} (value m : ℕ), count < 3 →
      step d ⟨stack, .text role reversed (.unit count value)⟩ (Text.hexDigit (m % 16)) =
        .ok ⟨stack, .text role reversed (.unit (count + 1) (16 * value + m % 16))⟩ := by
    intro count value m hcount
    dsimp only [step, textStep]
    rw [hdigit]
    exact if_pos hcount
  have hlast : ∀ value m : ℕ, step d ⟨stack, .text role reversed (.unit 3 value)⟩ (Text.hexDigit (m % 16)) =
      .ok ⟨stack, .text role (Text.CodeText.pushEscaped reversed (.ofUnit (16 * value + m % 16))) .plain⟩ := by
    intro value m
    dsimp only [step, textStep]
    rw [hdigit]
    exact if_neg (by omega)
  have hvalue : 16 * (16 * (16 * (16 * 0 + n / Nat.pow 16 3 % 16) + n / Nat.pow 16 2 % 16) +
      n / Nat.pow 16 1 % 16) + n / Nat.pow 16 0 % 16 = n := by
    simp only [Nat.pow_eq]
    omega
  unfold Text.hexDigits Text.hexDigits Text.hexDigits Text.hexDigits Text.hexDigits
  rw [feed_cons (hmore _ _ (by omega)), feed_cons (hmore _ _ (by omega)), feed_cons (hmore _ _ (by omega)),
    feed_cons (hlast _ _), hvalue]
  rfl

theorem pushEscaped_scalar (c : Char) :
    Text.CodeText.pushEscaped reversed (.scalar c) = .scalar c :: reversed := by
  rcases reversed with _ | ⟨_ | _, _⟩ <;> rfl

theorem feed_unitEscape {n : ℕ} (h : n < 65536) (cs : List Char) :
    feed d ⟨stack, .text role reversed .plain⟩ (unitEscape n ++ cs) =
      feed d ⟨stack, .text role (Text.CodeText.pushEscaped reversed (.ofUnit n)) .plain⟩ cs := by
  have hopen : feed d ⟨stack, .text role reversed .plain⟩ ('\\' :: 'u' :: (Text.hexDigits 4 n ++ cs)) =
      feed d ⟨stack, .text role reversed (.unit 0 0)⟩ (Text.hexDigits 4 n ++ cs) := rfl
  rw [unitEscape, List.cons_append, List.cons_append, hopen, feed_append (feed_hexDigits d stack role reversed h)]

theorem ofUnit_half {half : ℕ} (h : half < 2048) : Text.CodePoint.ofUnit (0xd800 + half) = .lone ⟨half, h⟩ := by
  have hvalue : 0xd800 + half - 0xd800 = half := Nat.add_sub_cancel_left ..
  rw [Text.CodePoint.ofUnit, dif_pos ⟨by omega, by omega⟩]
  exact congrArg Text.CodePoint.lone (Fin.ext hvalue)

theorem pushEscaped_high {half : Fin 2048} (h : half.val < 1024) :
    Text.CodeText.pushEscaped reversed (.lone half) = .lone half :: reversed := by
  rcases reversed with _ | ⟨_ | high, _⟩
  · rfl
  · rfl
  · have hjoined : Text.CodePoint.joined? (.lone high) (.lone half) = none := if_neg (by omega)
    rw [Text.CodeText.pushEscaped, hjoined]

theorem pushEscaped_low {high low : Fin 2048} (hhigh : high.val < 1024) (hlow : 1024 ≤ low.val) :
    Text.CodeText.pushEscaped (.lone high :: reversed) (.lone low) =
      .scalar (Char.ofNat (0x10000 + 1024 * high.val + (low.val - 1024))) :: reversed := by
  have hjoined : Text.CodePoint.joined? (.lone high) (.lone low) =
      some (Char.ofNat (0x10000 + 1024 * high.val + (low.val - 1024))) := if_pos ⟨hhigh, hlow⟩
  rw [Text.CodeText.pushEscaped, hjoined]

/-- **A character is read from its escape**, beyond the first 65536 from two halves. -/
theorem feed_numericEscape (c : Char) :
    feed d ⟨stack, .text role reversed .plain⟩ (numericEscape c) =
      .ok ⟨stack, .text role (.scalar c :: reversed) .plain⟩ := by
  have hvalid : c.toNat < 0xd800 ∨ 0xdfff < c.toNat ∧ c.toNat < 0x110000 := c.valid
  unfold numericEscape
  dsimp only
  split
  · rename_i hshort
    have hunit : Text.CodePoint.ofUnit c.toNat = .scalar c := by
      rw [Text.CodePoint.ofUnit, dif_neg (by omega), Char.ofNat_toNat]
    rw [← List.append_nil (unitEscape _), feed_unitEscape d stack role reversed hshort, hunit, pushEscaped_scalar]
    rfl
  · rename_i hlong
    obtain ⟨n, hn⟩ : ∃ n, c.toNat - 0x10000 = n := ⟨_, rfl⟩
    have hhigh : n / 1024 < 1024 := by omega
    have hlow : n % 1024 < 1024 := Nat.mod_lt n (by decide)
    have hunit : 0xdc00 + n % 1024 = 0xd800 + (1024 + n % 1024) := by omega
    have hjoined : 0x10000 + 1024 * (n / 1024) + (1024 + n % 1024 - 1024) = c.toNat := by omega
    rw [hn, feed_unitEscape d stack role reversed (by omega), ← List.append_nil (unitEscape _),
      feed_unitEscape d stack role _ (by omega), hunit, ofUnit_half (by omega), ofUnit_half (by omega),
      pushEscaped_high reversed hhigh, pushEscaped_low reversed hhigh (Nat.le_add_right 1024 _)]
    dsimp only
    rw [hjoined, Char.ofNat_toNat]
    rfl

variable {l : Layout} (hl : l.Readable)
include hl

theorem feed_char (c : Char) : feed d ⟨stack, .text role reversed .plain⟩ (l.char c) =
    .ok ⟨stack, .text role (.scalar c :: reversed) .plain⟩ := by
  rcases l.char_cases c with ⟨letter, hletter, hshort, hchars⟩ | ⟨-, hchars⟩ | ⟨hquote, hbackslash, hplain, hchars⟩
  · have hopen : step d ⟨stack, .text role reversed .plain⟩ '\\' = .ok ⟨stack, .text role reversed .backslash⟩ := rfl
    have hletters : escapeLetters.all (· != 'u') = true := by decide
    have hu : (letter == 'u') = false := by simpa using List.all_eq_true.mp hletters letter hletter
    have hclose : step d ⟨stack, .text role reversed .backslash⟩ letter =
        .ok ⟨stack, .text role (.scalar c :: reversed) .plain⟩ := by
      dsimp only [step, textStep]
      rw [hu, hshort]
      rfl
    rw [hchars, feed_cons hopen, feed_cons hclose]
    rfl
  · rw [hchars, feed_numericEscape]
  · have hcontrol : ¬c.toNat < 0x20 := fun hlt => by
      rw [hl.escapes c hlt] at hplain
      cases hplain
    have hstep : step d ⟨stack, .text role reversed .plain⟩ c =
        .ok ⟨stack, .text role (.scalar c :: reversed) .plain⟩ := by
      dsimp only [step, textStep]
      rw [hquote, hbackslash, if_neg Bool.false_ne_true, if_neg Bool.false_ne_true, if_neg hcontrol]
    rw [hchars, feed_cons hstep]
    rfl

theorem feed_flatMap_point : ∀ (t reversed : Text.CodeText), Text.CodeText.isScalar t = true →
    feed d ⟨stack, .text role reversed .plain⟩ (t.flatMap l.point) =
      .ok ⟨stack, .text role (t.reverse ++ reversed) .plain⟩
  | [], _, _ => rfl
  | .scalar c :: t, reversed, h => by
    have hc : feed d ⟨stack, .text role reversed .plain⟩ (l.point (.scalar c)) =
        .ok ⟨stack, .text role (.scalar c :: reversed) .plain⟩ := feed_char d stack role reversed hl c
    rw [List.flatMap_cons, feed_append hc, feed_flatMap_point t _ h, List.reverse_cons, List.append_assoc]
    rfl
  | .lone _ :: _, _, h => by cases h

end Texts

section Parts

variable {d : Dialect} {l : Layout} {stack : List Frame}

theorem feed_text (hl : l.Readable) (role : Role) {t : Text.CodeText} (ht : Text.CodeText.isScalar t = true) :
    feed d ⟨stack, .text role [] .plain⟩ (t.flatMap l.point ++ ['"']) =
      match role with
      | .value => .ok (complete stack (.str t))
      | .key members => .ok ⟨stack, .colon members t⟩ := by
  have hclose : ∀ reversed, feed d ⟨stack, .text role reversed .plain⟩ ['"'] = closeText d stack role reversed :=
    fun _ => bind_pure _
  rw [feed_append (feed_flatMap_point d stack role hl t [] ht), List.append_nil, hclose]
  unfold closeText
  rw [List.reverse_reverse]
  exact if_pos (Bool.or_eq_true_iff.mpr (.inr ht))

theorem step_value {c : Char} (hc : isGap c = false) (hstack : stack.length < d.room) :
    step d ⟨stack, .value⟩ c =
      if c == '[' then .ok ⟨stack, .firstItem⟩
      else if c == '\x7b' then .ok ⟨stack, .firstKey⟩
      else if c == '"' then .ok ⟨stack, .text .value [] .plain⟩
      else if isAtomChar c then .ok ⟨stack, .atom [c]⟩
      else .error .malformed := by
  unfold Dialect.room at hstack
  have hdeep : (!d.countsEmpty && decide (d.limit < stack.length)) = false := by
    cases hcounts : d.countsEmpty with
    | true => rfl
    | false =>
      rw [hcounts, if_neg Bool.false_ne_true] at hstack
      exact decide_eq_false (by omega)
  have hopen : ∀ list, openContainer d stack list = .ok ⟨stack, if list then .firstItem else .firstKey⟩ := by
    intro list
    refine if_neg fun h => ?_
    obtain ⟨hcounts, hlimit⟩ := Bool.and_eq_true_iff.mp h
    rw [hcounts, if_pos rfl] at hstack
    exact absurd (of_decide_eq_true hlimit) (by omega)
  dsimp only [step]
  rw [hc, if_neg Bool.false_ne_true, startValue, hdeep, hopen, hopen]
  rfl

theorem isGap_of_isAtomChar {c : Char} (h : isAtomChar c = true) : isGap c = false := by
  unfold isAtomChar at h
  simp only [Bool.and_eq_true, Bool.not_eq_true'] at h
  exact h.1

theorem ne_of_isAtomChar {c d : Char} (h : isAtomChar c = true) (hd : isAtomChar d = false) :
    (c == d) = false := by
  rw [beq_eq_false_iff_ne]
  rintro rfl
  rw [h] at hd
  cases hd

theorem feed_atom {s : List Char} (hne : s ≠ []) (hs : ∀ c ∈ s, isAtomChar c = true)
    (hstack : stack.length < d.room) :
    feed d ⟨stack, .value⟩ s = .ok ⟨stack, .atom s.reverse⟩ := by
  have hmore : ∀ (s reversed : List Char), (∀ c ∈ s, isAtomChar c = true) →
      feed d ⟨stack, .atom reversed⟩ s = .ok ⟨stack, .atom (s.reverse ++ reversed)⟩ := by
    intro s
    induction s with
    | nil => exact fun _ _ => rfl
    | cons c s ih =>
      intro reversed h
      obtain ⟨hc, hs⟩ := List.forall_mem_cons.mp h
      have hstep : step d ⟨stack, .atom reversed⟩ c = .ok ⟨stack, .atom (c :: reversed)⟩ := if_pos hc
      rw [feed_cons hstep, ih _ hs, List.reverse_cons, List.append_assoc, List.singleton_append]
  obtain ⟨c, s, rfl⟩ := List.exists_cons_of_ne_nil hne
  obtain ⟨hc, hs⟩ := List.forall_mem_cons.mp hs
  have hstep : step d ⟨stack, .value⟩ c = .ok ⟨stack, .atom [c]⟩ := by
    rw [step_value (isGap_of_isAtomChar hc) hstack, ne_of_isAtomChar hc (by decide),
      ne_of_isAtomChar hc (by decide), ne_of_isAtomChar hc (by decide), hc]
    rfl
  rw [feed_cons hstep, hmore s [c] hs, List.reverse_cons]

theorem feed_separator {separator : List Char} {c : Char} {s s' : State}
    (hseparator : ∃ gaps, (∀ g ∈ gaps, isGap g = true) ∧ separator = c :: gaps) (hstep : step d s c = .ok s')
    (hgap : ∀ g, isGap g = true → step d s' g = .ok s') (cs : List Char) :
    feed d s (separator ++ cs) = feed d s' cs := by
  have hgaps : ∀ gaps : List Char, (∀ g ∈ gaps, isGap g = true) → feed d s' (gaps ++ cs) = feed d s' cs := by
    intro gaps
    induction gaps with
    | nil => exact fun _ => rfl
    | cons g gaps ih =>
      intro h
      obtain ⟨hg, hgaps⟩ := List.forall_mem_cons.mp h
      rw [List.cons_append, feed_cons (hgap g hg), ih hgaps]
  obtain ⟨gaps, h, rfl⟩ := hseparator
  rw [List.cons_append, feed_cons hstep, hgaps gaps h]

theorem step_value_of_isGap {c : Char} (hc : isGap c = true) : step d ⟨stack, .value⟩ c = .ok ⟨stack, .value⟩ :=
  if_pos hc

theorem step_key_of_isGap {members : Members} {c : Char} (hc : isGap c = true) :
    step d ⟨stack, .key members⟩ c = .ok ⟨stack, .key members⟩ := if_pos hc

theorem feed_name (hl : l.Readable) (members : Members) {k : Text.CodeText} (hk : Text.CodeText.isScalar k = true)
    (cs : List Char) : feed d ⟨stack, .key members⟩ (l.text k ++ l.colon ++ cs) =
      feed d ⟨.object members k :: stack, .value⟩ cs := by
  have hopen : step d ⟨stack, .key members⟩ '"' = .ok ⟨stack, .text (.key members) [] .plain⟩ := rfl
  have hstep : step d ⟨stack, .colon members k⟩ ':' = .ok ⟨.object members k :: stack, .value⟩ := rfl
  have hname : feed d ⟨stack, .text (.key members) [] .plain⟩ (k.flatMap l.point ++ ['"']) =
      .ok ⟨stack, .colon members k⟩ := feed_text hl (.key members) hk
  rw [List.append_assoc, Layout.text, List.cons_append, List.cons_append, feed_cons hopen, feed_append hname]
  exact feed_separator hl.colon hstep (fun _ => step_value_of_isGap) cs

end Parts

/-! ### Values -/

theorem depth_pos (v : Value) : 0 < v.depth := by
  cases v <;> simp [depth]

/-- Whether a value is written as a number or a word. -/
def isAtomic : Value → Bool
  | .str _ | .arr _ | .obj _ => false
  | _ => true

section Values

variable {d : Dialect} {l : Layout} (hl : l.Readable) {stack : List Frame}

include hl

theorem atomic_chars (d : Dialect) {v : Value} (hv : v.isAtomic = true) (h : v.Portable) :
    l.chars v ≠ [] ∧ (∀ c ∈ l.chars v, isAtomChar c = true) ∧ ofAtom d (l.chars v) = some v := by
  cases v with
  | null =>
    rw [Layout.chars]
    exact ⟨by decide, List.all_eq_true.mp (by decide), rfl⟩
  | bool b =>
    cases b with
    | true =>
      rw [Layout.chars]
      exact ⟨by decide, List.all_eq_true.mp (by decide), rfl⟩
    | false =>
      rw [Layout.chars]
      exact ⟨by decide, List.all_eq_true.mp (by decide), rfl⟩
  | int n =>
    rw [Layout.chars]
    refine ⟨?_, ?_, ofAtom_int d h⟩
    · rw [toList_toString_int]
      exact signedChars_ne_nil _ _
    · rw [toList_toString_int]
      exact isAtomChar_signedChars _ _
  | float x =>
    obtain ⟨t, hchars, hread⟩ := ofAtom_float d l.numbers hl.numbers h
    rw [Layout.chars]
    refine ⟨?_, ?_, hread⟩
    · rw [hchars]
      exact signedChars_ne_nil _ t
    · rw [hchars]
      exact isAtomChar_signedChars _ t
  | str _ => cases hv
  | arr _ => cases hv
  | obj _ => cases hv

theorem feed_atomic {v : Value} (hv : v.isAtomic = true) (h : v.Portable)
    (hdepth : stack.length + v.depth ≤ d.room) :
    ∃ s, feed d ⟨stack, .value⟩ (l.chars v) = .ok s ∧ Ended d stack v s := by
  obtain ⟨hne, hchars, hread⟩ := atomic_chars hl d hv h
  have hpos := depth_pos v
  refine ⟨_, feed_atom hne hchars (by omega), .inr ⟨(l.chars v).reverse, rfl, ?_⟩⟩
  rwa [List.reverse_reverse]

/-- The first character of a value opens it. -/
theorem exists_chars_eq {v : Value} (h : v.Portable) :
    ∃ c cs, l.chars v = c :: cs ∧ isGap c = false ∧ (c == ']') = false := by
  by_cases hv : v.isAtomic = true
  · obtain ⟨hne, hchars, -⟩ := atomic_chars hl (strict 0) hv h
    obtain ⟨c, cs, hcs⟩ := List.exists_cons_of_ne_nil hne
    have hc := hchars c (by rw [hcs]; exact List.mem_cons_self)
    exact ⟨c, cs, hcs, isGap_of_isAtomChar hc, ne_of_isAtomChar hc (by decide)⟩
  · cases v with
    | str s =>
      rw [Layout.chars]
      exact ⟨_, _, rfl, by decide, by decide⟩
    | arr items =>
      rw [Layout.chars]
      exact ⟨_, _, rfl, by decide, by decide⟩
    | obj members =>
      rw [Layout.chars]
      exact ⟨_, _, rfl, by decide, by decide⟩
    | _ => exact absurd rfl hv

omit hl

theorem feed_firstItem (d : Dialect) {c : Char} (hc : isGap c = false) (hne : (c == ']') = false)
    (cs : List Char) : feed d ⟨stack, .firstItem⟩ (c :: cs) = feed d ⟨.list [] :: stack, .value⟩ (c :: cs) := by
  have hstep : step d ⟨stack, .firstItem⟩ c = step d ⟨.list [] :: stack, .value⟩ c := by
    dsimp only [step]
    rw [hc, hne]
    rfl
  unfold feed
  rw [List.foldlM_cons, List.foldlM_cons, hstep]

theorem exists_items_chars (l : Layout) (v : Value) (items : List Value) : ∃ cs,
    List.intercalate l.comma (l.items (v :: items)) ++ [']'] = l.chars v ++ cs := by
  cases items with
  | nil => exact ⟨[']'], congrArg (· ++ [']']) (List.append_nil _)⟩
  | cons v' items => exact ⟨_, List.append_assoc _ _ _⟩

theorem exists_members_chars (l : Layout) (m : Text.CodeText × Value) (members : Members) : ∃ cs,
    List.intercalate l.comma (l.members (m :: members)) ++ ['\x7d'] = '"' :: cs := by
  cases members <;> exact ⟨_, rfl⟩

end Values

section Written

variable {d : Dialect} {l : Layout}

mutual

/-- **A value is read as it was written**, in any open containers. -/
theorem feed_value (hl : l.Readable) : ∀ (v : Value) (stack : List Frame), v.Portable →
    stack.length + v.depth ≤ d.room →
    ∃ s, feed d ⟨stack, .value⟩ (l.chars v) = .ok s ∧ Ended d stack v s
  | .null, _, h, hdepth => feed_atomic hl rfl h hdepth
  | .bool _, _, h, hdepth => feed_atomic hl rfl h hdepth
  | .int _, _, h, hdepth => feed_atomic hl rfl h hdepth
  | .float _, _, h, hdepth => feed_atomic hl rfl h hdepth
  | .str s, stack, h, hdepth => by
    have hpos := depth_pos (.str s)
    have hopen : step d ⟨stack, .value⟩ '"' = .ok ⟨stack, .text .value [] .plain⟩ :=
      step_value (by decide) (by omega)
    refine ⟨complete stack (.str s), ?_, .inl rfl⟩
    rw [Layout.chars, Layout.text, List.cons_append, feed_cons hopen, feed_text hl .value h]
  | .arr items, stack, h, hdepth => by
    rw [depth] at hdepth
    have hopen : step d ⟨stack, .value⟩ '[' = .ok ⟨stack, .firstItem⟩ := step_value (by decide) (by omega)
    refine ⟨complete stack (.arr items), ?_, .inl rfl⟩
    rw [Layout.chars, List.cons_append, feed_cons hopen]
    cases items with
    | nil => rfl
    | cons v items =>
      obtain ⟨c, cs, hcs, hgap, hne⟩ := exists_chars_eq hl h.1
      have hitems := feed_items hl (v :: items) [] stack (List.cons_ne_nil v items) h (by omega)
      obtain ⟨cs', hcs'⟩ := exists_items_chars l v items
      rw [hcs', hcs, List.cons_append, ← feed_firstItem _ hgap hne, ← List.cons_append, ← hcs, ← hcs'] at hitems
      exact hitems
  | .obj members, stack, h, hdepth => by
    rw [depth] at hdepth
    have hopen : step d ⟨stack, .value⟩ '\x7b' = .ok ⟨stack, .firstKey⟩ := step_value (by decide) (by omega)
    refine ⟨complete stack (.obj members), ?_, .inl rfl⟩
    rw [Layout.chars, List.cons_append, feed_cons hopen]
    cases members with
    | nil => rfl
    | cons m members =>
      obtain ⟨cs, hcs⟩ := exists_members_chars l m members
      have hmembers := feed_members hl (m :: members) [] stack (List.cons_ne_nil m members) h.2 (by omega)
      rw [hcs] at hmembers
      rw [hcs]
      exact hmembers

theorem feed_items (hl : l.Readable) : ∀ (items : List Value) (done : List Value)
    (stack : List Frame), items ≠ [] → ItemsPortable items → stack.length + 1 + itemsDepth items ≤ d.room →
    feed d ⟨.list done :: stack, .value⟩ (List.intercalate l.comma (l.items items) ++ [']']) =
      .ok (complete stack (.arr (done.reverse ++ items)))
  | [], _, _, hne, _, _ => absurd rfl hne
  | [v], done, stack, _, h, hdepth => by
    -- the bracket completes the last item, and the list
    rw [itemsDepth, itemsDepth] at hdepth
    obtain ⟨s, hs, hended⟩ := feed_value hl v (.list done :: stack) h.1 (by rw [List.length_cons]; omega)
    have hclose : step d s ']' = .ok (complete stack (.arr (v :: done).reverse)) :=
      (hended.step (c := ']') (by decide)).trans rfl
    have hchars : List.intercalate l.comma (l.items [v]) = l.chars v := List.append_nil _
    rw [hchars, feed_append hs, feed_cons hclose, List.reverse_cons]
    rfl
  | v :: v' :: items, done, stack, _, h, hdepth => by
    rw [itemsDepth] at hdepth
    obtain ⟨s, hs, hended⟩ := feed_value hl v (.list done :: stack) h.1 (by rw [List.length_cons]; omega)
    have hstep : step d s ',' = .ok ⟨.list (v :: done) :: stack, .value⟩ :=
      (hended.step (c := ',') (by decide)).trans rfl
    have hchars : List.intercalate l.comma (l.items (v :: v' :: items)) =
        l.chars v ++ (l.comma ++ List.intercalate l.comma (l.items (v' :: items))) := rfl
    have ih := feed_items hl (v' :: items) (v :: done) stack (List.cons_ne_nil v' items) h.2 (by omega)
    rw [hchars, List.append_assoc, feed_append hs, List.append_assoc,
      feed_separator hl.comma hstep (fun _ => step_value_of_isGap), ih, List.reverse_cons,
      List.append_assoc]
    rfl

theorem feed_members (hl : l.Readable) : ∀ (members : Members)
    (done : Members) (stack : List Frame), members ≠ [] → MembersPortable members →
    stack.length + 1 + membersDepth members ≤ d.room →
    feed d ⟨stack, .key done⟩ (List.intercalate l.comma (l.members members) ++ ['\x7d']) =
      .ok (complete stack (.obj (done.reverse ++ members)))
  | [], _, _, hne, _, _ => absurd rfl hne
  | [(k, v)], done, stack, _, h, hdepth => by
    rw [membersDepth, membersDepth] at hdepth
    obtain ⟨s, hs, hended⟩ := feed_value hl v (.object done k :: stack) h.2.1 (by rw [List.length_cons]; omega)
    have hclose : step d s '\x7d' = .ok (complete stack (.obj ((k, v) :: done).reverse)) :=
      (hended.step (c := '\x7d') (by decide)).trans rfl
    have hchars : List.intercalate l.comma (l.members [(k, v)]) = l.text k ++ l.colon ++ l.chars v :=
      List.append_nil _
    rw [hchars, List.append_assoc, feed_name hl done h.1, feed_append hs, feed_cons hclose, List.reverse_cons]
    rfl
  | (k, v) :: m :: members, done, stack, _, h, hdepth => by
    rw [membersDepth] at hdepth
    obtain ⟨s, hs, hended⟩ := feed_value hl v (.object done k :: stack) h.2.1 (by rw [List.length_cons]; omega)
    have hstep : step d s ',' = .ok ⟨stack, .key ((k, v) :: done)⟩ :=
      (hended.step (c := ',') (by decide)).trans rfl
    have hchars : List.intercalate l.comma (l.members ((k, v) :: m :: members)) =
        l.text k ++ l.colon ++ l.chars v ++ (l.comma ++ List.intercalate l.comma (l.members (m :: members))) := rfl
    have ih := feed_members hl (m :: members) ((k, v) :: done) stack (List.cons_ne_nil m members) h.2.2
      (by omega)
    rw [hchars, List.append_assoc, List.append_assoc, feed_name hl done h.1, feed_append hs, List.append_assoc,
      feed_separator hl.comma hstep (fun _ => step_key_of_isGap), ih, List.reverse_cons,
      List.append_assoc]
    rfl

end

/-- **A value is read from its text as it was written.** -/
theorem read_written (hl : l.Readable) {v : Value} (h : v.Portable) (hdepth : v.depth ≤ d.room) :
    read d (l.chars v) = .ok v := by
  have hroom : ([] : List Frame).length + v.depth ≤ d.room := by
    rw [List.length_nil]
    omega
  obtain ⟨s, hs, hended⟩ := feed_value hl v [] h hroom
  have hread : read d (l.chars v) = feed d .start (l.chars v) >>= finish d := rfl
  rw [hread, State.start, hs]
  exact hended.finish

end Written

end PageInvalidation.Json
