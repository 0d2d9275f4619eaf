import PageInvalidation.Json.Reader
import PageInvalidation.Proofs.Outcome
import PageInvalidation.Proofs.Text.NumeralText

/-! # Integers of a text that was read

An integer is short if it has as many digits as texts may give an integer. A reader takes no longer ones, so all
integers of a value that was read from a text are short (`Json.shortIntegers_of_read`): the values that the reader
has collected have short integers only, and one more character keeps it so. -/

namespace PageInvalidation

namespace Text

variable {s : List Char} {ds : List ℕ}

theorem isShort_iff {n : ℤ} : IsShort n ↔ n.natAbs < 10 ^ maxDigits :=
  Nat.length_toDigits_le_iff (by decide) (by decide)

theorem lt_of_mem_spanDigits : ∀ {s : List Char}, ∀ d ∈ (spanDigits s).1, d < 10
  | [], d, hd => by cases hd
  | c :: s, d, hd => by
    rw [spanDigits] at hd
    by_cases hc : c.isDigit = true
    · rw [asciiDigit?_of_isDigit hc] at hd
      rcases List.mem_cons.mp hd with rfl | hd
      · have hrange := Char.isDigit_iff_toNat.mp hc
        have h0 : '0'.toNat = 48 := rfl
        have h9 : '9'.toNat = 57 := rfl
        rw [digitValue]
        omega
      · exact lt_of_mem_spanDigits d hd
    · rw [asciiDigit?_of_not_isDigit (Bool.eq_false_iff.mpr hc)] at hd
      cases hd

theorem natAbs_signed (sign : Option Char) (n : ℕ) : (signed sign n).natAbs = n := by
  unfold signed
  split <;> simp

theorem isShort_signed (sign : Option Char) (hdigits : ∀ d ∈ ds, d < 10) (hlength : ds.length ≤ maxDigits) :
    IsShort (signed sign (ofDigits ds)) := by
  rw [isShort_iff, natAbs_signed]
  exact (ofDigits_lt hdigits).trans_le (Nat.pow_le_pow_right (by decide) hlength)

theorem Numeral.lt_of_mem_whole {n : Numeral} (h : read? s = some n) : ∀ d ∈ n.whole, d < 10 := by
  obtain ⟨exponent, -, rfl⟩ := Option.map_eq_some_iff.mp h
  exact lt_of_mem_spanDigits

end Text

namespace Json



/-! ### Values with short integers -/

mutual

/-- A value whose integers are short. -/
def ShortIntegers : Value → Prop
  | .int n => Text.IsShort n
  | .arr items => ItemsShort items
  | .obj members => MembersShort members
  | _ => True

/-- Items whose integers are short. -/
def ItemsShort : List Value → Prop
  | [] => True
  | v :: rest => v.ShortIntegers ∧ ItemsShort rest

/-- Members whose integers are short. -/
def MembersShort : Members → Prop
  | [] => True
  | (_, v) :: rest => v.ShortIntegers ∧ MembersShort rest

end

theorem itemsShort_iff : ∀ {items : List Value}, ItemsShort items ↔ ∀ v ∈ items, v.ShortIntegers
  | [] => by simp [ItemsShort]
  | v :: rest => by rw [ItemsShort, itemsShort_iff, List.forall_mem_cons]

theorem membersShort_iff : ∀ {members : Members},
    MembersShort members ↔ ∀ m ∈ members, m.2.ShortIntegers
  | [] => by simp [MembersShort]
  | (_, v) :: rest => by rw [MembersShort, membersShort_iff, List.forall_mem_cons]

/-! ### Numbers -/

variable {d : Dialect} {v : Value} {s s' : State} {stack : List Frame} {c : Char}

theorem shortIntegers_of_ofNumeral {n : Text.Numeral} (h : ofNumeral d n = some v)
    (hdigits : ∀ digit ∈ n.whole, digit < 10) : v.ShortIntegers := by
  unfold ofNumeral at h
  split at h
  · cases h
  split at h
  · cases h
  rename_i hshort
  split at h
  · rename_i hwhole
    cases h
    refine Text.isShort_signed _ hdigits ?_
    simpa [hwhole] using hshort
  · cases h
    trivial

theorem shortIntegers_of_ofAtom {cs : List Char} (h : ofAtom d cs = some v) : v.ShortIntegers := by
  unfold ofAtom at h
  iterate 6
    split at h
    · cases h
      trivial
  obtain ⟨n, hn, h⟩ := Option.bind_eq_some_iff.mp h
  exact shortIntegers_of_ofNumeral h (Text.Numeral.lt_of_mem_whole hn)

/-! ### The state of the reader -/

/-- What an open container holds so far has short integers. -/
def Frame.ShortIntegers : Frame → Prop
  | .list items => ∀ v ∈ items, v.ShortIntegers
  | .object members _ => ∀ m ∈ members, m.2.ShortIntegers

/-- What the innermost container holds so far, or the value that was read, has short integers. -/
def Mode.ShortIntegers : Mode → Prop
  | .key members => ∀ m ∈ members, m.2.ShortIntegers
  | .colon members _ => ∀ m ∈ members, m.2.ShortIntegers
  | .afterMember members => ∀ m ∈ members, m.2.ShortIntegers
  | .text (.key members) _ _ => ∀ m ∈ members, m.2.ShortIntegers
  | .afterItem items => ∀ v ∈ items, v.ShortIntegers
  | .done v => v.ShortIntegers
  | _ => True

/-- All that was read so far has short integers. -/
structure State.ShortIntegers (s : State) : Prop where
  stack : ∀ frame ∈ s.stack, frame.ShortIntegers
  mode : s.mode.ShortIntegers

theorem shortIntegers_complete (hstack : ∀ frame ∈ stack, frame.ShortIntegers) (hv : v.ShortIntegers) :
    (complete stack v).ShortIntegers := by
  cases stack with
  | nil => exact ⟨nofun, hv⟩
  | cons frame rest =>
    obtain ⟨hframe, hrest⟩ := List.forall_mem_cons.mp hstack
    cases frame with
    | list items => exact ⟨hrest, List.forall_mem_cons.mpr ⟨hv, hframe⟩⟩
    | object members key => exact ⟨hrest, List.forall_mem_cons.mpr ⟨hv, hframe⟩⟩

theorem shortIntegers_startValue (h : startValue d stack c = .ok s)
    (hstack : ∀ frame ∈ stack, frame.ShortIntegers) : s.ShortIntegers := by
  unfold startValue openContainer at h
  split_ifs at h <;> cases h <;> exact ⟨hstack, trivial⟩

theorem shortIntegers_afterValue (h : afterValue s c = .ok s') (hs : s.ShortIntegers) : s'.ShortIntegers := by
  obtain ⟨stack, mode⟩ := s
  unfold afterValue at h
  split at h
  · cases h
    exact hs
  split at h
  · rename_i items hmode
    cases hmode
    split_ifs at h <;> cases h
    · exact ⟨List.forall_mem_cons.mpr ⟨hs.mode, hs.stack⟩, trivial⟩
    · refine shortIntegers_complete hs.stack (itemsShort_iff.mpr fun v hv => ?_)
      exact hs.mode v (List.mem_reverse.mp hv)
  · rename_i members hmode
    cases hmode
    split_ifs at h <;> cases h
    · exact ⟨hs.stack, hs.mode⟩
    · refine shortIntegers_complete hs.stack (membersShort_iff.mpr fun m hm => ?_)
      exact hs.mode m (List.mem_reverse.mp hm)
  · cases h

theorem shortIntegers_textStep {role : Role} {reversed : Text.CodeText} {escape : Escape}
    (h : textStep d stack role reversed escape c = .ok s)
    (hs : State.ShortIntegers ⟨stack, .text role reversed escape⟩) : s.ShortIntegers := by
  have hmode : ∀ reversed' escape', (Mode.text role reversed' escape').ShortIntegers := by
    intro reversed' escape'
    have hmode := hs.mode
    cases role with
    | value => trivial
    | key members => exact hmode
  unfold textStep at h
  cases escape with
  | plain =>
    dsimp only at h
    split_ifs at h
    · -- the text ends here
      unfold closeText at h
      dsimp only at h
      split_ifs at h
      cases role with
      | value =>
        cases h
        exact shortIntegers_complete hs.stack trivial
      | key members =>
        cases h
        exact ⟨hs.stack, hs.mode⟩
    · cases h
      exact ⟨hs.stack, hmode _ _⟩
    · cases h
      exact ⟨hs.stack, hmode _ _⟩
  | backslash =>
    dsimp only at h
    split_ifs at h
    · cases h
      exact ⟨hs.stack, hmode _ _⟩
    · split at h <;> cases h
      exact ⟨hs.stack, hmode _ _⟩
  | unit count value =>
    dsimp only at h
    split at h
    · cases h
    · split_ifs at h <;> cases h <;> exact ⟨hs.stack, hmode _ _⟩

/-- **One more character** keeps the integers short. -/
theorem State.ShortIntegers.step (hs : s.ShortIntegers) (h : step d s c = .ok s') : s'.ShortIntegers := by
  obtain ⟨stack, mode⟩ := s
  unfold Json.step at h
  cases mode with
  | text role reversed escape => exact shortIntegers_textStep h hs
  | atom reversed =>
    dsimp only at h
    split_ifs at h
    · cases h
      exact ⟨hs.stack, trivial⟩
    · obtain ⟨closed, hclosed, h⟩ := Outcome.bind_eq_ok.mp h
      refine shortIntegers_afterValue h ?_
      unfold closeAtom at hclosed
      split at hclosed
      · rename_i v hv
        cases hclosed
        exact shortIntegers_complete hs.stack (shortIntegers_of_ofAtom hv)
      · cases hclosed
  | value =>
    dsimp only at h
    split_ifs at h
    · cases h
      exact hs
    · exact shortIntegers_startValue h hs.stack
  | firstItem =>
    dsimp only at h
    split_ifs at h
    · cases h
      exact hs
    · cases h
      exact shortIntegers_complete hs.stack trivial
    · exact shortIntegers_startValue h (List.forall_mem_cons.mpr ⟨List.forall_mem_nil _, hs.stack⟩)
  | firstKey =>
    dsimp only at h
    split_ifs at h <;> cases h
    · exact hs
    · exact shortIntegers_complete hs.stack trivial
    · exact ⟨hs.stack, List.forall_mem_nil _⟩
  | key members =>
    dsimp only at h
    split_ifs at h <;> cases h
    · exact hs
    · exact ⟨hs.stack, hs.mode⟩
  | colon members key =>
    dsimp only at h
    split_ifs at h <;> cases h
    · exact hs
    · exact ⟨List.forall_mem_cons.mpr ⟨hs.mode, hs.stack⟩, trivial⟩
  | afterItem items => exact shortIntegers_afterValue h hs
  | afterMember members => exact shortIntegers_afterValue h hs
  | done v => exact shortIntegers_afterValue h hs

theorem State.ShortIntegers.foldlM (hs : s.ShortIntegers) : ∀ {cs : List Char},
    cs.foldlM (Json.step d) s = .ok s' → s'.ShortIntegers := by
  intro cs
  induction cs generalizing s with
  | nil =>
    intro h
    cases h
    exact hs
  | cons c cs ih =>
    intro h
    obtain ⟨next, hnext, h⟩ := Outcome.bind_eq_ok.mp h
    exact ih (hs.step hnext) h

theorem State.ShortIntegers.finish (hs : s.ShortIntegers) (h : finish d s = .ok v) : v.ShortIntegers := by
  have hmode := hs.mode
  unfold Json.finish at h
  split at h
  · rename_i w hw
    cases h
    rwa [hw] at hmode
  · split at h
    · rename_i hv
      cases h
      exact shortIntegers_of_ofAtom hv
    · cases h
  · cases h

end Json

end PageInvalidation
