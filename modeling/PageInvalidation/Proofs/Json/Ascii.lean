import PageInvalidation.Proofs.Json.RoundTrip

/-! # JSON in ASCII

Whatever a value holds, its text in the layout for dead letters is of ASCII characters (`isAscii_chars`): all others
are escaped, and an escape, a numeral and a word are of letters, digits and marks. -/

namespace PageInvalidation.Json

/-- Only ASCII characters. -/
def IsAscii (cs : List Char) : Prop := ∀ c ∈ cs, c.toNat < 0x80

instance (cs : List Char) : Decidable (IsAscii cs) := List.decidableBAll _ cs

theorem isAscii_cons {c : Char} {cs : List Char} : IsAscii (c :: cs) ↔ c.toNat < 0x80 ∧ IsAscii cs :=
  List.forall_mem_cons

theorem isAscii_append {cs cs' : List Char} : IsAscii (cs ++ cs') ↔ IsAscii cs ∧ IsAscii cs' :=
  List.forall_mem_append

/-! ### Texts -/

theorem isAscii_hexDigits : ∀ width n : ℕ, IsAscii (Text.hexDigits width n)
  | 0, _ => List.forall_mem_nil _
  | width + 1, n => by
    have hdigit : ∀ m < 16, (Text.hexDigit m).toNat < 0x80 := by decide
    exact isAscii_cons.mpr ⟨hdigit _ (Nat.mod_lt _ (by decide)), isAscii_hexDigits width n⟩

theorem isAscii_unitEscape (n : ℕ) : IsAscii (unitEscape n) :=
  isAscii_cons.mpr ⟨by decide, isAscii_cons.mpr ⟨by decide, isAscii_hexDigits 4 n⟩⟩

theorem isAscii_numericEscape (c : Char) : IsAscii (numericEscape c) := by
  unfold numericEscape
  dsimp only
  split
  · exact isAscii_unitEscape _
  · exact isAscii_append.mpr ⟨isAscii_unitEscape _, isAscii_unitEscape _⟩

theorem isAscii_char (c : Char) : IsAscii (ascii.char c) := by
  rcases ascii.char_cases c with ⟨letter, hletter, -, hchars⟩ | ⟨-, hchars⟩ | ⟨-, -, hplain, hchars⟩
  · have hletters : IsAscii escapeLetters := by decide
    rw [hchars]
    exact isAscii_cons.mpr ⟨by decide, List.forall_mem_singleton.mpr (hletters letter hletter)⟩
  · rw [hchars]
    exact isAscii_numericEscape c
  · have hrange : ¬0x7f ≤ c.toNat := of_decide_eq_false (Bool.or_eq_false_iff.mp hplain).2
    rw [hchars]
    exact List.forall_mem_singleton.mpr (by omega)

theorem isAscii_point : ∀ p : Text.CodePoint, IsAscii (ascii.point p)
  | .scalar c => isAscii_char c
  | .lone _ => isAscii_unitEscape _

theorem isAscii_text (s : Text.CodeText) : IsAscii (ascii.text s) := by
  refine isAscii_append.mpr ⟨isAscii_cons.mpr ⟨by decide, ?_⟩, by decide⟩
  intro c hc
  obtain ⟨p, -, hc⟩ := List.mem_flatMap.mp hc
  exact isAscii_point p c hc

/-! ### Values -/

theorem isAscii_signedChars (negative : Bool) (t : Text.NumeralText) : IsAscii (t.signedChars negative) := by
  have hmark : IsAscii ['-', '+', '.', 'e'] := by decide
  refine forall_mem_signedChars (fun c hc => ?_) hmark negative t
  have := (Char.isDigit_iff_toNat.mp hc).2
  have h9 : '9'.toNat = 57 := rfl
  omega

theorem isAscii_render (x : Binary64) : IsAscii (ascii.numbers.render x) := by
  unfold Binary64.Style.render
  split
  · decide
  split
  · split <;> decide
  · obtain ⟨t, ht, -⟩ := Binary64.exists_writes ascii.numbers (by decide) x.shortest
    rw [ht]
    exact isAscii_signedChars x.isNegative t

mutual

/-- **The text of a value is of ASCII characters.** -/
theorem isAscii_chars : ∀ v : Value, IsAscii (ascii.chars v)
  | .null => by rw [Layout.chars]; decide
  | .bool true => by rw [Layout.chars]; decide
  | .bool false => by rw [Layout.chars]; decide
  | .int n => by
    rw [Layout.chars, toList_toString_int]
    exact isAscii_signedChars _ _
  | .float x => by
    rw [Layout.chars]
    exact isAscii_render x
  | .str s => by
    rw [Layout.chars]
    exact isAscii_text s
  | .arr items => by
    rw [Layout.chars]
    exact isAscii_cons.mpr ⟨by decide, isAscii_append.mpr ⟨isAscii_items items, by decide⟩⟩
  | .obj members => by
    rw [Layout.chars]
    exact isAscii_cons.mpr ⟨by decide, isAscii_append.mpr ⟨isAscii_members members, by decide⟩⟩

theorem isAscii_items : ∀ items : List Value, IsAscii (List.intercalate ascii.comma (ascii.items items))
  | [] => List.forall_mem_nil _
  | [v] => isAscii_append.mpr ⟨isAscii_chars v, List.forall_mem_nil _⟩
  | v :: v' :: items =>
    isAscii_append.mpr ⟨isAscii_chars v, isAscii_append.mpr ⟨by decide, isAscii_items (v' :: items)⟩⟩

theorem isAscii_members : ∀ members : Members,
    IsAscii (List.intercalate ascii.comma (ascii.members members))
  | [] => List.forall_mem_nil _
  | [(k, v)] => isAscii_append.mpr ⟨isAscii_member k v, List.forall_mem_nil _⟩
  | (k, v) :: m :: members =>
    isAscii_append.mpr ⟨isAscii_member k v, isAscii_append.mpr ⟨by decide, isAscii_members (m :: members)⟩⟩

theorem isAscii_member (k : Text.CodeText) (v : Value) : IsAscii (ascii.text k ++ ascii.colon ++ ascii.chars v) :=
  isAscii_append.mpr ⟨isAscii_append.mpr ⟨isAscii_text k, by decide⟩, isAscii_chars v⟩

end

end PageInvalidation.Json
