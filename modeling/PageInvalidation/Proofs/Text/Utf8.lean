import Mathlib.Data.List.Basic
import PageInvalidation.Proofs.Outcome
import PageInvalidation.Proofs.Text.UpperCase
import PageInvalidation.Text.Utf8

/-! # UTF-8 read back

A text is read from its bytes, and from no others (`decode_eq_ok_iff`). The bytes of a character are a first byte and
bytes that may follow it (`exists_lead`), which the reader takes up to the character (`piecesFrom_encodeChar`).
Conversely the reader loses no byte: the pieces that it cuts the input into, each written with its own bytes, make up
the input (`flatMap_bytes_pieces`), since in every state whatever is still due completes the bytes read to those of one
character (`State.Sound`). -/

namespace PageInvalidation.Text.Utf8

/-! ### Sequences of bytes -/

section Sequences

variable {b b₁ b₂ b₃ : UInt8} {n : ℕ}

theorem ofNat_eq (h : n = b.toNat) : UInt8.ofNat n = b := by
  rw [h, UInt8.ofNat_toNat]

theorem encodeChar_one (hb : b.toNat < 0x80) : encodeChar (Char.ofNat b.toNat) = [b] := by
  have hvalue : (Char.ofNat b.toNat).toNat = b.toNat := toNat_ofNat (.inl (by omega))
  rw [encodeChar, hvalue, if_pos hb, ofNat_eq rfl]

theorem encodeChar_two (hb : 0xc2 ≤ b.toNat ∧ b.toNat < 0xe0) (h₁ : 0x80 ≤ b₁.toNat ∧ b₁.toNat ≤ 0xbf) :
    encodeChar (Char.ofNat ((b.toNat - 0xc0) * 64 + (b₁.toNat - 0x80))) = [b, b₁] := by
  obtain ⟨n, hn⟩ : ∃ n, (b.toNat - 0xc0) * 64 + (b₁.toNat - 0x80) = n := ⟨_, rfl⟩
  have hvalue : (Char.ofNat n).toNat = n := toNat_ofNat (.inl (by omega))
  have hfirst : UInt8.ofNat (0xc0 + n / 64) = b := ofNat_eq (by omega)
  have hlast : UInt8.ofNat (0x80 + n % 64) = b₁ := ofNat_eq (by omega)
  rw [hn, encodeChar, hvalue]
  simp only [Nat.pow_eq, Nat.reducePow, Nat.div_one]
  rw [if_neg (by omega), if_pos (by omega), hfirst, hlast]

theorem encodeChar_three (hb : 0xe0 ≤ b.toNat ∧ b.toNat < 0xf0)
    (h₁ : (if b.toNat = 0xe0 then 0xa0 else 0x80) ≤ b₁.toNat ∧ b₁.toNat ≤ if b.toNat = 0xed then 0x9f else 0xbf)
    (h₂ : 0x80 ≤ b₂.toNat ∧ b₂.toNat ≤ 0xbf) :
    encodeChar (Char.ofNat (((b.toNat - 0xe0) * 64 + (b₁.toNat - 0x80)) * 64 + (b₂.toNat - 0x80))) = [b, b₁, b₂] := by
  obtain ⟨n, hn⟩ : ∃ n, ((b.toNat - 0xe0) * 64 + (b₁.toNat - 0x80)) * 64 + (b₂.toNat - 0x80) = n := ⟨_, rfl⟩
  -- the range of the second byte keeps out what two bytes could write, and surrogates
  have hlow : 0x80 ≤ b₁.toNat ∧ (b.toNat = 0xe0 → 0xa0 ≤ b₁.toNat) := by
    have := h₁.1
    split at this <;> omega
  have hhigh : b₁.toNat ≤ 0xbf ∧ (b.toNat = 0xed → b₁.toNat ≤ 0x9f) := by
    have := h₁.2
    split at this <;> omega
  have hvalid : n.isValidChar := by
    unfold Nat.isValidChar
    omega
  have hfirst : UInt8.ofNat (0xe0 + n / 4096) = b := ofNat_eq (by omega)
  have hnext : UInt8.ofNat (0x80 + n / 64 % 64) = b₁ := ofNat_eq (by omega)
  have hlast : UInt8.ofNat (0x80 + n % 64) = b₂ := ofNat_eq (by omega)
  rw [hn, encodeChar, toNat_ofNat hvalid]
  simp only [Nat.pow_eq, Nat.reducePow, Nat.div_one]
  rw [if_neg (by omega), if_neg (by omega), if_pos (by omega), hfirst, hnext, hlast]

theorem encodeChar_four (hb : 0xf0 ≤ b.toNat ∧ b.toNat < 0xf5)
    (h₁ : (if b.toNat = 0xf0 then 0x90 else 0x80) ≤ b₁.toNat ∧ b₁.toNat ≤ if b.toNat = 0xf4 then 0x8f else 0xbf)
    (h₂ : 0x80 ≤ b₂.toNat ∧ b₂.toNat ≤ 0xbf) (h₃ : 0x80 ≤ b₃.toNat ∧ b₃.toNat ≤ 0xbf) :
    encodeChar (Char.ofNat ((((b.toNat - 0xf0) * 64 + (b₁.toNat - 0x80)) * 64 + (b₂.toNat - 0x80)) * 64 +
      (b₃.toNat - 0x80))) = [b, b₁, b₂, b₃] := by
  obtain ⟨n, hn⟩ : ∃ n, (((b.toNat - 0xf0) * 64 + (b₁.toNat - 0x80)) * 64 + (b₂.toNat - 0x80)) * 64 +
    (b₃.toNat - 0x80) = n := ⟨_, rfl⟩
  -- the range of the second byte keeps out what three bytes could write, and numbers that are too large
  have hlow : 0x80 ≤ b₁.toNat ∧ (b.toNat = 0xf0 → 0x90 ≤ b₁.toNat) := by
    have := h₁.1
    split at this <;> omega
  have hhigh : b₁.toNat ≤ 0xbf ∧ (b.toNat = 0xf4 → b₁.toNat ≤ 0x8f) := by
    have := h₁.2
    split at this <;> omega
  have hvalue : (Char.ofNat n).toNat = n := toNat_ofNat (.inr (by omega))
  have hfirst : UInt8.ofNat (0xf0 + n / 262144) = b := ofNat_eq (by omega)
  have hnext : UInt8.ofNat (0x80 + n / 4096 % 64) = b₁ := ofNat_eq (by omega)
  have hthird : UInt8.ofNat (0x80 + n / 64 % 64) = b₂ := ofNat_eq (by omega)
  have hlast : UInt8.ofNat (0x80 + n % 64) = b₃ := ofNat_eq (by omega)
  rw [hn, encodeChar, hvalue]
  simp only [Nat.pow_eq, Nat.reducePow, Nat.div_one]
  rw [if_neg (by omega), if_neg (by omega), if_neg (by omega), hfirst, hnext, hthird, hlast]

end Sequences

/-- The bytes that may follow: as many as are due, the first of them in its range. -/
def Follows : (due low high : ℕ) → List UInt8 → Prop
  | 0, _, _, bs => bs = []
  | due + 1, low, high, bs => ∃ b rest, bs = b :: rest ∧ (low ≤ b.toNat ∧ b.toNat ≤ high) ∧
    Follows due 0x80 0xbf rest

/-- The number that bytes make with what is read before them. -/
def number (value : ℕ) (bs : List UInt8) : ℕ := bs.foldl (fun value b => value * 64 + (b.toNat - 0x80)) value

theorem number_cons (value : ℕ) (b : UInt8) (bs : List UInt8) :
    number value (b :: bs) = number (value * 64 + (b.toNat - 0x80)) bs := by
  rw [number, List.foldl_cons, number]

/-- **A first byte and bytes that may follow it** are those of the character that they make. -/
theorem encodeChar_number {b : UInt8} {lead : Lead} (hlead : lead? b = some lead) {bs : List UInt8}
    (hbs : Follows lead.follow lead.low lead.high bs) :
    encodeChar (Char.ofNat (number lead.value bs)) = b :: bs := by
  unfold lead? at hlead
  dsimp only at hlead
  split at hlead
  · obtain rfl := Option.some.inj hlead
    obtain rfl := hbs
    exact encodeChar_one ‹_›
  split at hlead
  · cases hlead
  split at hlead
  · obtain rfl := Option.some.inj hlead
    obtain ⟨b₁, _, rfl, h₁, rfl⟩ := hbs
    exact encodeChar_two (by omega) h₁
  split at hlead
  · obtain rfl := Option.some.inj hlead
    obtain ⟨b₁, _, rfl, h₁, b₂, _, rfl, h₂, rfl⟩ := hbs
    exact encodeChar_three (by omega) h₁ h₂
  split at hlead
  · obtain rfl := Option.some.inj hlead
    obtain ⟨b₁, _, rfl, h₁, b₂, _, rfl, h₂, b₃, _, rfl, h₃, rfl⟩ := hbs
    exact encodeChar_four (by omega) h₁ h₂ h₃
  · cases hlead

/-! ### Bytes of characters -/

section Leads

variable {b : UInt8}

theorem lead?_one (h : b.toNat < 0x80) : lead? b = some ⟨b.toNat, 0, 0x80, 0xbf⟩ := if_pos h

theorem lead?_two (h : 0xc2 ≤ b.toNat ∧ b.toNat < 0xe0) : lead? b = some ⟨b.toNat - 0xc0, 1, 0x80, 0xbf⟩ := by
  unfold lead?
  dsimp only
  rw [if_neg (by omega), if_neg (by omega), if_pos (by omega)]

theorem lead?_three (h : 0xe0 ≤ b.toNat ∧ b.toNat < 0xf0) : lead? b =
    some ⟨b.toNat - 0xe0, 2, if b.toNat = 0xe0 then 0xa0 else 0x80, if b.toNat = 0xed then 0x9f else 0xbf⟩ := by
  unfold lead?
  dsimp only
  rw [if_neg (by omega), if_neg (by omega), if_neg (by omega), if_pos (by omega)]

theorem lead?_four (h : 0xf0 ≤ b.toNat ∧ b.toNat < 0xf5) : lead? b =
    some ⟨b.toNat - 0xf0, 3, if b.toNat = 0xf0 then 0x90 else 0x80, if b.toNat = 0xf4 then 0x8f else 0xbf⟩ := by
  unfold lead?
  dsimp only
  rw [if_neg (by omega), if_neg (by omega), if_neg (by omega), if_neg (by omega), if_pos (by omega)]

end Leads

theorem toNat_byte {n : ℕ} (h : n < 256) : (UInt8.ofNat n).toNat = n := by
  rw [UInt8.toNat_ofNat']
  omega

theorem follows_cons {n due low high : ℕ} (hn : n < 64) (hrange : low ≤ 0x80 + n ∧ 0x80 + n ≤ high)
    {bs : List UInt8} (hbs : Follows due 0x80 0xbf bs) :
    Follows (due + 1) low high (UInt8.ofNat (0x80 + n) :: bs) := by
  refine ⟨_, bs, rfl, ?_, hbs⟩
  rw [toNat_byte (by omega)]
  exact hrange

theorem number_ofNat_cons {value n : ℕ} (hn : n < 64) (bs : List UInt8) :
    number value (UInt8.ofNat (0x80 + n) :: bs) = number (value * 64 + n) bs := by
  rw [number_cons, toNat_byte (by omega), Nat.add_sub_cancel_left]

/-- **The bytes of a character** are a first byte and bytes that may follow it, and make its number. -/
theorem exists_lead (c : Char) : ∃ b bs lead, encodeChar c = b :: bs ∧ lead? b = some lead ∧
    Follows lead.follow lead.low lead.high bs ∧ number lead.value bs = c.toNat := by
  have hvalid : c.toNat < 0xd800 ∨ 0xdfff < c.toNat ∧ c.toNat < 0x110000 := c.valid
  unfold encodeChar
  generalize c.toNat = n at hvalid ⊢
  simp only [Nat.pow_eq, Nat.reducePow, Nat.div_one]
  have hlast : n % 64 < 64 := Nat.mod_lt _ (by decide)
  have hnext : n / 64 % 64 < 64 := Nat.mod_lt _ (by decide)
  have hthird : n / 4096 % 64 < 64 := Nat.mod_lt _ (by decide)
  -- one to four bytes, by the size of the number
  split
  · have hb : (UInt8.ofNat n).toNat = n := toNat_byte (by omega)
    exact ⟨_, _, _, rfl, lead?_one (by omega), rfl, hb⟩
  split
  · have hb : (UInt8.ofNat (0xc0 + n / 64)).toNat = 0xc0 + n / 64 := toNat_byte (by omega)
    refine ⟨_, _, _, rfl, lead?_two (by omega), follows_cons hlast ?_ rfl, ?_⟩
    · dsimp only
      omega
    · rw [number_ofNat_cons hlast, hb, number, List.foldl_nil]
      dsimp only
      omega
  split
  · have hb : (UInt8.ofNat (0xe0 + n / 4096)).toNat = 0xe0 + n / 4096 := toNat_byte (by omega)
    refine ⟨_, _, _, rfl, lead?_three (by omega), follows_cons hnext ?_ (follows_cons hlast ?_ rfl), ?_⟩
    · dsimp only
      rw [hb]
      constructor
      · split <;> omega
      · split <;> omega
    · omega
    · rw [number_ofNat_cons hnext, number_ofNat_cons hlast, hb, number, List.foldl_nil]
      dsimp only
      omega
  · have hb : (UInt8.ofNat (0xf0 + n / 262144)).toNat = 0xf0 + n / 262144 := toNat_byte (by omega)
    refine ⟨_, _, _, rfl, lead?_four (by omega), follows_cons hthird ?_
      (follows_cons hnext ?_ (follows_cons hlast ?_ rfl)), ?_⟩
    · dsimp only
      rw [hb]
      constructor
      · split <;> omega
      · split <;> omega
    · omega
    · omega
    · rw [number_ofNat_cons hthird, number_ofNat_cons hnext, number_ofNat_cons hlast, hb, number, List.foldl_nil]
      dsimp only
      omega

/-! ### The reader -/

/-- Bytes that may follow are taken up to the character that they make. -/
theorem piecesFrom_inside : ∀ {due value low high : ℕ} {seen bs : List UInt8}, Follows (due + 1) low high bs →
    ∀ rest, piecesFrom (.inside value (due + 1) low high seen) (bs ++ rest) =
      .char (Char.ofNat (number value bs)) :: piecesFrom .between rest
  | 0, value, low, high, seen, _, ⟨b, _, rfl, hb, rfl⟩, rest => by
    have hstep : step (.inside value 1 low high seen) b =
        (.between, [.char (Char.ofNat (value * 64 + (b.toNat - 0x80)))]) := if_pos hb
    rw [List.cons_append, piecesFrom, hstep]
    rfl
  | due + 1, value, low, high, seen, _, ⟨b, bs, rfl, hb, hbs⟩, rest => by
    have hstep : step (.inside value (due + 2) low high seen) b =
        (.inside (value * 64 + (b.toNat - 0x80)) (due + 1) 0x80 0xbf (b :: seen), []) := if_pos hb
    rw [List.cons_append, piecesFrom, hstep, number_cons]
    exact piecesFrom_inside hbs rest

/-- **The bytes of a character are taken for it.** -/
theorem piecesFrom_encodeChar (c : Char) (rest : List UInt8) :
    piecesFrom .between (encodeChar c ++ rest) = .char c :: piecesFrom .between rest := by
  obtain ⟨b, bs, ⟨value, follow, low, high⟩, hchar, hlead, hfollows, hnumber⟩ := exists_lead c
  dsimp only at hfollows hnumber
  have hstart : step .between b = if follow = 0 then (.between, [.char (Char.ofNat value)])
      else (.inside value follow low high [b], []) := by
    rw [step, start, hlead]
  rw [hchar, List.cons_append, piecesFrom, hstart]
  cases follow with
  | zero =>
    obtain rfl : bs = [] := hfollows
    have hvalue : value = c.toNat := hnumber
    rw [hvalue, Char.ofNat_toNat]
    rfl
  | succ due =>
    have hmore : piecesFrom (.inside value (due + 1) low high [b]) (bs ++ rest) =
        .char (Char.ofNat (number value bs)) :: piecesFrom .between rest := piecesFrom_inside hfollows rest
    rw [hnumber, Char.ofNat_toNat] at hmore
    exact hmore

/-- The bytes of a piece. -/
def Piece.bytes : Piece → List UInt8
  | .char c => encodeChar c
  | .illFormed bytes _ => bytes

namespace State

/-- The bytes of the sequence that is not complete. -/
def pending : State → List UInt8
  | .between => []
  | .inside _ _ _ _ seen => seen.reverse

/-- Whatever may follow, the bytes read and these are those of the character that they make. -/
def Sound : State → Prop
  | .between => True
  | .inside value due low high seen => 0 < due ∧ ∀ bs, Follows due low high bs →
    encodeChar (Char.ofNat (number value bs)) = seen.reverse ++ bs

end State

variable {s : State} {b : UInt8}

theorem start_spec (b : UInt8) :
    (start b).1.Sound ∧ (start b).2.flatMap Piece.bytes ++ (start b).1.pending = [b] := by
  unfold start
  cases hlead : lead? b with
  | none => exact ⟨trivial, rfl⟩
  | some lead =>
    have hnumber : ∀ bs, Follows lead.follow lead.low lead.high bs → _ := fun bs => encodeChar_number hlead
    dsimp only
    split
    · rename_i hfollow
      rw [hfollow] at hnumber
      refine ⟨trivial, ?_⟩
      rw [List.flatMap_singleton, State.pending, List.append_nil]
      exact hnumber [] rfl
    · exact ⟨⟨by omega, hnumber⟩, rfl⟩

/-- **A byte further**, no byte is lost, and whatever is still due completes the bytes read. -/
theorem step_spec (h : s.Sound) (b : UInt8) :
    (step s b).1.Sound ∧ (step s b).2.flatMap Piece.bytes ++ (step s b).1.pending = s.pending ++ [b] := by
  cases s with
  | between => exact start_spec b
  | inside value due low high seen =>
    obtain ⟨hdue, hnumber⟩ := h
    obtain ⟨due, rfl⟩ : ∃ k, due = k + 1 := ⟨due - 1, by omega⟩
    rw [step]
    split
    · rename_i hrange
      have hnext : ∀ bs, Follows due 0x80 0xbf bs →
          encodeChar (Char.ofNat (number (value * 64 + (b.toNat - 0x80)) bs)) = (b :: seen).reverse ++ bs := by
        intro bs hbs
        have hfollows : Follows (due + 1) low high (b :: bs) := ⟨b, bs, rfl, hrange, hbs⟩
        have hmore := hnumber (b :: bs) hfollows
        rw [number_cons] at hmore
        rw [hmore, List.reverse_cons, List.append_assoc, List.singleton_append]
      cases due with
      | zero =>
        refine ⟨trivial, ?_⟩
        have hchar := hnext [] rfl
        rw [List.append_nil, List.reverse_cons] at hchar
        exact (List.append_nil _).trans ((List.flatMap_singleton _ _).trans hchar)
      | succ due => exact ⟨⟨by omega, hnext⟩, List.reverse_cons⟩
    · obtain ⟨hsound, hbytes⟩ := start_spec b
      refine ⟨hsound, ?_⟩
      dsimp only
      rw [List.flatMap_cons, List.append_assoc, hbytes]
      rfl

theorem flatMap_bytes_piecesFrom : ∀ (bytes : List UInt8) {s : State}, s.Sound →
    (piecesFrom s bytes).flatMap Piece.bytes = s.pending ++ bytes
  | [], .between, _ => rfl
  | [], .inside _ _ _ _ seen, _ => (List.flatMap_singleton _ _).trans (List.append_nil seen.reverse).symm
  | b :: bytes, s, h => by
    obtain ⟨hsound, hbytes⟩ := step_spec h b
    rw [piecesFrom]
    dsimp only
    rw [List.flatMap_append, flatMap_bytes_piecesFrom bytes hsound, ← List.append_assoc, hbytes, List.append_assoc,
      List.singleton_append]

/-- **The pieces make up the input.** -/
theorem flatMap_bytes_pieces (bytes : List UInt8) : (pieces bytes).flatMap Piece.bytes = bytes :=
  flatMap_bytes_piecesFrom bytes (s := .between) trivial

/-! ### Texts -/

variable {bytes : List UInt8} {text : List Char}

theorem charsFrom_eq_ok : ∀ {ps : List Piece} {position : ℕ} {text : List Char},
    charsFrom position ps = .ok text ↔ ps = text.map .char
  | [], _, text => by
    rw [charsFrom, Except.ok.injEq, eq_comm, eq_comm (a := []), List.map_eq_nil_iff]
  | .char c :: ps, position, text => by
    rw [charsFrom, Outcome.map_eq_ok]
    constructor
    · rintro ⟨rest, hrest, rfl⟩
      rw [List.map_cons, charsFrom_eq_ok.mp hrest]
    · intro h
      cases text with
      | nil => cases h
      | cons c' rest =>
        obtain ⟨hc, hrest⟩ := List.cons.inj h
        cases hc
        exact ⟨rest, charsFrom_eq_ok.mpr hrest, rfl⟩
  | .illFormed _ _ :: _, _, text => by
    constructor
    · exact nofun
    · intro h
      cases text <;> cases h

theorem decode_eq_ok_iff_pieces : decode bytes = .ok text ↔ pieces bytes = text.map .char := charsFrom_eq_ok

theorem pieces_encode (text : List Char) : pieces (encode text) = text.map .char := by
  induction text with
  | nil => rfl
  | cons c text ih =>
    unfold pieces encode at *
    rw [List.flatMap_cons, piecesFrom_encodeChar, ih, List.map_cons]

/-- **A text is read from its bytes, and from no others.** -/
theorem decode_eq_ok_iff : decode bytes = .ok text ↔ encode text = bytes := by
  rw [decode_eq_ok_iff_pieces]
  constructor
  · intro h
    have hbytes := flatMap_bytes_pieces bytes
    rw [h, List.flatMap_map] at hbytes
    exact hbytes
  · rintro rfl
    exact pieces_encode text

theorem decodeLossy_encode (text : List Char) : decodeLossy (encode text) = text := by
  rw [decodeLossy, pieces_encode, List.map_map]
  exact List.map_id text

end PageInvalidation.Text.Utf8
