import PageInvalidation.Proofs.Change.Diff
import PageInvalidation.Proofs.Text.CodeText
import PageInvalidation.Proofs.Text.Numeral
import PageInvalidation.Proofs.Wire.Checked
import PageInvalidation.Wire.Convert

/-! # What decoding a diff keeps

A diff in a message *mirrors* a diff if both have the same operations at every level, in the same order and of
the same kinds. A diff that was read from a text is decoded if and only if in its lists every name of digits is a
number, and then it mirrors what it was decoded to if and only if in no list two names are the same number
(`DiffMessage.decoded_iff_and_mirrors_iff`). Otherwise decoding fails or loses operations
(`DiffMessage.decoding_fails_or_loses`). -/

namespace PageInvalidation.Wire

variable {associative : Bool} {name : Text.CodeText} {key : DiffKey} {names : List Text.CodeText}
  {operations : List (Text.CodeText × Operation)} {entries : List (DiffKey × DiffOp)} {op : Operation} {o : DiffOp}

/-! ### Keys -/

/-- A name that stands for a position if it is in a list: it consists of digits of any kind. -/
def IsPosition (name : Text.CodeText) : Prop := name ≠ [] ∧ ∀ p ∈ name, p.satisfies Text.isDigit = true

/-- The number that a position is: its digits need decimal values, and there must not be too many. -/
def positionNumber? (name : Text.CodeText) : Option ℕ :=
  ((Text.decimals? (Text.CodeText.replaced name)).filter fun ds => ds.length ≤ Text.maxDigits).map Text.ofDigits

/-- A name stands for a key: in a list a position for its number, any other name for itself. -/
def StandsFor (associative : Bool) (name : Text.CodeText) (key : DiffKey) : Prop :=
  associative = false ∧ IsPosition name ∧ (∃ n : ℕ, positionNumber? name = some n ∧ key = .index n) ∨
    ¬(associative = false ∧ IsPosition name) ∧ key = .name name

theorem IsPosition.replaced (h : IsPosition name) : Text.CodeText.replaced name ≠ [] ∧
    ∀ c ∈ Text.CodeText.replaced name, Text.isDigit c = true := by
  refine ⟨mt List.map_eq_nil_iff.mp h.1, fun c hc => ?_⟩
  obtain ⟨p, hp, rfl⟩ := List.mem_map.mp hc
  obtain ⟨c, rfl, hdigit⟩ := Text.CodePoint.satisfies_eq_true.mp (h.2 p hp)
  exact hdigit

theorem integerOfText_eq_ok (h : IsPosition name) {i : ℤ} :
    integerOfText name = .ok i ↔ ∃ n : ℕ, positionNumber? name = some n ∧ i = n := by
  unfold integerOfText positionNumber?
  cases hds : Text.decimals? (Text.CodeText.replaced name) with
  | none =>
    have hread := Text.readInteger_ne_ok h.replaced.2 hds
    constructor
    · intro hi
      split at hi
      · rename_i n hn
        exact absurd hn (hread n)
      · cases hi
      · cases hi
    · rintro ⟨n, ⟨⟩, -⟩
  | some ds =>
    rw [Text.readInteger_of_decimals h.replaced.1 hds]
    by_cases hlong : Text.maxDigits < ds.length
    · have hfilter : decide (ds.length ≤ Text.maxDigits) = false := decide_eq_false (by omega)
      simp [hlong, Option.filter, hfilter]
    · have hfilter : decide (ds.length ≤ Text.maxDigits) = true := decide_eq_true (by omega)
      simp [hlong, Option.filter, hfilter, eq_comm]

theorem isPosition_iff : IsPosition name ↔
    (!name.isEmpty && name.all (·.satisfies Text.isDigit)) = true := by
  rw [IsPosition, Bool.and_eq_true, List.all_eq_true, Bool.not_eq_true', List.isEmpty_eq_false_iff]

instance : DecidablePred IsPosition := fun _ => decidable_of_iff _ isPosition_iff.symm

/-- **The key that a name is decoded to.** -/
theorem toKey_eq_ok : toKey associative name = .ok key ↔ StandsFor associative name key := by
  unfold toKey StandsFor
  by_cases h : associative = false ∧ IsPosition name
  · obtain ⟨rfl, hpos⟩ := h
    have hcond := isPosition_iff.mp hpos
    rw [Bool.not_false, Bool.true_and, hcond, if_pos rfl, Outcome.map_eq_ok]
    constructor
    · rintro ⟨i, hi, rfl⟩
      obtain ⟨n, hn, rfl⟩ := (integerOfText_eq_ok hpos).mp hi
      exact .inl ⟨rfl, hpos, n, hn, rfl⟩
    · rintro (⟨-, -, n, hn, rfl⟩ | ⟨hnot, -⟩)
      · exact ⟨n, (integerOfText_eq_ok hpos).mpr ⟨n, hn, rfl⟩, rfl⟩
      · exact absurd ⟨rfl, hpos⟩ hnot
  · have hcond : (!associative && !name.isEmpty && name.all (·.satisfies Text.isDigit)) = false := by
      rw [Bool.eq_false_iff, Bool.and_assoc, Ne, Bool.and_eq_true, Bool.not_eq_true', ← isPosition_iff]
      exact h
    rw [hcond, if_neg Bool.false_ne_true]
    constructor
    · rintro ⟨⟩
      exact .inr ⟨h, rfl⟩
    · rintro (⟨ha, hpos, -⟩ | ⟨-, rfl⟩)
      · exact absurd ⟨ha, hpos⟩ h
      · rfl

/-! ### Levels -/

mutual

/-- Something holds at every level of an operation, of whether it is a list and of its names. -/
def Operation.AtEveryLevel (P : Bool → List Text.CodeText → Prop) : Operation → Prop
  | .diff associative operations => P associative (operations.map Prod.fst) ∧ BelowEveryName P operations
  | _ => True

/-- Something holds at every level below names. -/
def BelowEveryName (P : Bool → List Text.CodeText → Prop) : List (Text.CodeText × Operation) → Prop
  | [] => True
  | (_, op) :: rest => op.AtEveryLevel P ∧ BelowEveryName P rest

end

/-- In a list every position is a number. -/
def Numbered (associative : Bool) (names : List Text.CodeText) : Prop :=
  associative = false → ∀ name ∈ names, IsPosition name → ∃ n, positionNumber? name = some n

/-- In a list no two positions are the same number. -/
def Apart (associative : Bool) (names : List Text.CodeText) : Prop :=
  associative = false → names.Pairwise fun name name' =>
    IsPosition name → IsPosition name' → positionNumber? name ≠ positionNumber? name'

/-- The names are distinct. -/
def Distinct (_ : Bool) (names : List Text.CodeText) : Prop := names.Nodup

theorem belowEveryName_iff {P : Bool → List Text.CodeText → Prop} : ∀ {operations : List (Text.CodeText × Operation)},
    BelowEveryName P operations ↔ ∀ e ∈ operations, e.2.AtEveryLevel P
  | [] => by simp [BelowEveryName]
  | (name, op) :: rest => by
    have ih : BelowEveryName P rest ↔ ∀ e ∈ rest, e.2.AtEveryLevel P := belowEveryName_iff
    simp [BelowEveryName, ih]

instance : Decidable (Numbered associative names) :=
  decidable_of_iff (associative = false → ∀ name ∈ names, IsPosition name →
    (positionNumber? name).isSome = true) (by simp only [Numbered, Option.isSome_iff_exists])

instance : Decidable (Apart associative names) := inferInstanceAs (Decidable (_ → _))

section Decidable

variable {P : Bool → List Text.CodeText → Prop} [∀ associative names, Decidable (P associative names)]

mutual

/-- Whether something holds at every level can be decided. -/
def Operation.decidableAtEveryLevel : ∀ op : Operation, Decidable (op.AtEveryLevel P)
  | .add _ => isTrue trivial
  | .remove _ => isTrue trivial
  | .change _ _ => isTrue trivial
  | .diff _ operations =>
    have := decidableBelowEveryName operations
    inferInstanceAs (Decidable (_ ∧ _))

/-- Whether something holds at every level below names can be decided. -/
def decidableBelowEveryName : ∀ operations : List (Text.CodeText × Operation),
    Decidable (BelowEveryName P operations)
  | [] => isTrue trivial
  | (_, op) :: rest =>
    have := op.decidableAtEveryLevel
    have := decidableBelowEveryName rest
    inferInstanceAs (Decidable (_ ∧ _))

end

end Decidable

/-! ### Mirrors -/

mutual

/-- An operation of a message and a change are of the same kind with the same values, and if they are diffs they
have the same entries in the same order. -/
def Operation.Mirrors : Operation → DiffOp → Prop
  | .add new, .add new' => new = new'
  | .remove old, .remove old' => old = old'
  | .change old new, .change old' new' => old = old' ∧ new = new'
  | .diff associative operations, .nested form entries associative' =>
    form = .plain ∧ associative = associative' ∧ EntriesMirror associative operations entries
  | _, _ => False

/-- Operations and entries are as many, each name stands for the key at its place, and each operation mirrors the
change there. -/
def EntriesMirror : Bool → List (Text.CodeText × Operation) → List (DiffKey × DiffOp) → Prop
  | _, [], [] => True
  | associative, (name, op) :: operations, (key, o) :: entries =>
    StandsFor associative name key ∧ op.Mirrors o ∧ EntriesMirror associative operations entries
  | _, _, _ => False

end

theorem EntriesMirror.length_eq : ∀ {operations : List (Text.CodeText × Operation)}
    {entries : List (DiffKey × DiffOp)}, EntriesMirror associative operations entries →
      operations.length = entries.length
  | [], [], _ => rfl
  | _ :: _, _ :: _, h => congrArg Nat.succ (EntriesMirror.length_eq h.2.2)

mutual

theorem count_eq_of_mirrors : ∀ (op : Operation) (o : DiffOp), op.Mirrors o → o.count = op.count
  | .add _, .add _, _ => rfl
  | .remove _, .remove _, _ => rfl
  | .change _ _, .change _ _, _ => rfl
  | .diff a operations, .nested _ entries _, h => countEntries_eq_of_mirror a operations entries h.2.2

/-- **Operations have as many leaves as the entries that they mirror.** -/
theorem countEntries_eq_of_mirror : ∀ (a : Bool) (operations : List (Text.CodeText × Operation))
    (entries : List (DiffKey × DiffOp)), EntriesMirror a operations entries →
      DiffOp.countEntries entries = Operation.countAll operations
  | _, [], [], _ => rfl
  | a, (_, op) :: operations, (_, o) :: entries, h => by
    rw [DiffOp.countEntries, Operation.countAll, count_eq_of_mirrors op o h.2.1,
      countEntries_eq_of_mirror a operations entries h.2.2]

end

/-! ### Names and keys of a level -/

theorem exists_toKey_iff : (∃ key, toKey associative name = .ok key) ↔
    (associative = false → IsPosition name → ∃ n, positionNumber? name = some n) := by
  simp only [toKey_eq_ok]
  constructor
  · rintro ⟨key, ⟨-, -, n, hn, -⟩ | ⟨hnot, -⟩⟩ ha hpos
    · exact ⟨n, hn⟩
    · exact absurd ⟨ha, hpos⟩ hnot
  · intro h
    by_cases hlist : associative = false ∧ IsPosition name
    · obtain ⟨n, hn⟩ := h hlist.1 hlist.2
      exact ⟨.index n, .inl ⟨hlist.1, hlist.2, n, hn, rfl⟩⟩
    · exact ⟨.name name, .inr ⟨hlist, rfl⟩⟩

/-- Two names stand for one key if and only if they are one name or, in a list, positions with one number. -/
theorem StandsFor.key_eq_iff {name' : Text.CodeText} {key' : DiffKey} (h : StandsFor associative name key)
    (h' : StandsFor associative name' key') : key = key' ↔ name = name' ∨
      associative = false ∧ IsPosition name ∧ IsPosition name' ∧
        positionNumber? name = positionNumber? name' := by
  rcases h with ⟨ha, hpos, n, hn, rfl⟩ | ⟨hnot, rfl⟩ <;>
    rcases h' with ⟨ha', hpos', n', hn', rfl⟩ | ⟨hnot', rfl⟩
  · rw [hn, hn']
    constructor
    · rintro ⟨⟩
      exact .inr ⟨ha, hpos, hpos', rfl⟩
    · rintro (rfl | ⟨-, -, -, heq⟩)
      · rw [Option.some.inj (hn.symm.trans hn')]
      · rw [Option.some.inj heq]
  · refine ⟨nofun, ?_⟩
    rintro (rfl | ⟨ha, -, hpos', -⟩)
    · exact absurd ⟨ha, hpos⟩ hnot'
    · exact absurd ⟨ha, hpos'⟩ hnot'
  · refine ⟨nofun, ?_⟩
    rintro (rfl | ⟨ha, hpos, -, -⟩)
    · exact absurd ⟨ha', hpos'⟩ hnot
    · exact absurd ⟨ha, hpos⟩ hnot
  · constructor
    · rintro ⟨⟩
      exact .inl rfl
    · rintro (rfl | ⟨ha, hpos, -, -⟩)
      · rfl
      · exact absurd ⟨ha, hpos⟩ hnot

theorem apart_cons {rest : List Text.CodeText} : Apart associative (name :: rest) ↔
    (∀ name' ∈ rest, ¬(associative = false ∧ IsPosition name ∧ IsPosition name' ∧
      positionNumber? name = positionNumber? name')) ∧ Apart associative rest := by
  unfold Apart
  simp only [List.pairwise_cons, forall_and, not_and, Ne]
  constructor
  · rintro ⟨hname, hrest⟩
    exact ⟨fun name' h ha => hname ha name' h, hrest⟩
  · rintro ⟨hname, hrest⟩
    exact ⟨fun ha name' h => hname name' h ha, hrest⟩

theorem forall_mem_iff_of_forall₂ {α β : Type} {R : α → β → Prop} {P : α → Prop} {Q : β → Prop}
    {l : List α} {l' : List β} (h : List.Forall₂ R l l') (hPQ : ∀ a b, R a b → (P a ↔ Q b)) :
    (∀ a ∈ l, P a) ↔ ∀ b ∈ l', Q b := by
  induction h with
  | nil => simp
  | cons hab _ ih => rw [List.forall_mem_cons, List.forall_mem_cons, hPQ _ _ hab, ih]

/-- **Distinct names stand for distinct keys** if and only if their positions are apart. -/
theorem nodup_keys_iff {keys : List DiffKey} (h : List.Forall₂ (StandsFor associative) names keys)
    (hnames : names.Nodup) : keys.Nodup ↔ Apart associative names := by
  induction h with
  | nil => simp [Apart]
  | @cons name key names keys hkey hrest ih =>
    obtain ⟨hname, hnames⟩ := List.nodup_cons.mp hnames
    have hother : ∀ name' ∈ names, name ≠ name' := fun name' h he => hname (he ▸ h)
    have hkeys : (∀ name' ∈ names, ¬(name = name' ∨ associative = false ∧ IsPosition name ∧
        IsPosition name' ∧ positionNumber? name = positionNumber? name')) ↔ ∀ key' ∈ keys, key ≠ key' :=
      forall_mem_iff_of_forall₂ hrest fun name' key' h' => not_congr (hkey.key_eq_iff h').symm
    rw [List.nodup_cons, apart_cons, ih hnames]
    refine and_congr ?_ Iff.rfl
    have hnot : key ∉ keys ↔ ∀ key' ∈ keys, key ≠ key' :=
      ⟨fun h key' hk he => h (he ▸ hk), fun h hk => h key hk rfl⟩
    rw [hnot, ← hkeys]
    constructor
    · intro h name' hmem hsame
      exact h name' hmem (.inr hsame)
    · rintro h name' hmem (he | hsame)
      · exact hother name' hmem he
      · exact h name' hmem hsame

/-! ### Decoding -/

theorem toEntries_cons_eq_ok {rest : List (Text.CodeText × Operation)} :
    toEntries associative ((name, op) :: rest) = .ok entries ↔ ∃ key o others,
      toKey associative name = .ok key ∧ op.toOp = .ok o ∧ toEntries associative rest = .ok others ∧
        entries = (key, o) :: others := by
  rw [toEntries]
  constructor
  · intro h
    obtain ⟨key, hkey, h⟩ := Outcome.bind_eq_ok.mp h
    obtain ⟨o, ho, h⟩ := Outcome.bind_eq_ok.mp h
    obtain ⟨others, hothers, h⟩ := Outcome.bind_eq_ok.mp h
    exact ⟨key, o, others, hkey, ho, hothers, (Except.ok.inj h).symm⟩
  · rintro ⟨key, o, others, hkey, ho, hothers, rfl⟩
    exact Outcome.bind_eq_ok.mpr ⟨key, hkey, Outcome.bind_eq_ok.mpr ⟨o, ho,
      Outcome.bind_eq_ok.mpr ⟨others, hothers, rfl⟩⟩⟩

theorem toOp_diff_eq_ok : (Operation.diff associative operations).toOp = .ok o ↔
    ∃ entries, toEntries associative operations = .ok entries ∧
      o = .nested .plain (distinctBy Prod.fst entries) associative := by
  rw [Operation.toOp]
  exact Outcome.bind_pure_eq_ok

theorem numbered_cons {rest : List Text.CodeText} : Numbered associative (name :: rest) ↔
    (∃ key, toKey associative name = .ok key) ∧ Numbered associative rest := by
  rw [exists_toKey_iff, Numbered, Numbered]
  constructor
  · intro h
    exact ⟨fun ha => h ha name List.mem_cons_self, fun ha name' h' => h ha name' (List.mem_cons_of_mem _ h')⟩
  · rintro ⟨hname, hrest⟩ ha name' h'
    rcases List.mem_cons.mp h' with rfl | h'
    · exact hname ha
    · exact hrest ha name' h'

mutual

/-- **An operation is decoded** if and only if at every level the positions of lists are numbers. -/
theorem exists_toOp_iff : ∀ op : Operation, (∃ o, op.toOp = .ok o) ↔ op.AtEveryLevel Numbered
  | .add new => ⟨fun _ => trivial, fun _ => ⟨.add new, rfl⟩⟩
  | .remove old => ⟨fun _ => trivial, fun _ => ⟨.remove old, rfl⟩⟩
  | .change old new => ⟨fun _ => trivial, fun _ => ⟨.change old new, rfl⟩⟩
  | .diff associative operations => by
    have ih := exists_toEntries_iff associative operations
    rw [Operation.AtEveryLevel, ← ih]
    constructor
    · rintro ⟨o, ho⟩
      obtain ⟨entries, hentries, -⟩ := toOp_diff_eq_ok.mp ho
      exact ⟨entries, hentries⟩
    · rintro ⟨entries, hentries⟩
      exact ⟨_, toOp_diff_eq_ok.mpr ⟨entries, hentries, rfl⟩⟩

theorem exists_toEntries_iff (associative : Bool) : ∀ operations : List (Text.CodeText × Operation),
    (∃ entries, toEntries associative operations = .ok entries) ↔
      Numbered associative (operations.map Prod.fst) ∧ BelowEveryName Numbered operations
  | [] => ⟨fun _ => ⟨by simp [Numbered], trivial⟩, fun _ => ⟨[], rfl⟩⟩
  | (name, op) :: rest => by
    have hop := exists_toOp_iff op
    have hrest := exists_toEntries_iff associative rest
    rw [List.map_cons, numbered_cons, BelowEveryName, ← hop, and_and_and_comm, ← hrest]
    constructor
    · rintro ⟨entries, h⟩
      obtain ⟨key, o, others, hkey, ho, hothers, -⟩ := toEntries_cons_eq_ok.mp h
      exact ⟨⟨⟨key, hkey⟩, o, ho⟩, others, hothers⟩
    · rintro ⟨⟨⟨key, hkey⟩, o, ho⟩, others, hothers⟩
      exact ⟨_, toEntries_cons_eq_ok.mpr ⟨key, o, others, hkey, ho, hothers, rfl⟩⟩

end

theorem forall₂_standsFor_of_toEntries : ∀ {operations : List (Text.CodeText × Operation)}
    {entries : List (DiffKey × DiffOp)}, toEntries associative operations = .ok entries →
      List.Forall₂ (StandsFor associative) (operations.map Prod.fst) (entries.map Prod.fst)
  | [], entries, h => by
    cases h
    exact .nil
  | (name, op) :: rest, entries, h => by
    obtain ⟨key, o, others, hkey, -, hothers, rfl⟩ := toEntries_cons_eq_ok.mp h
    exact .cons (toKey_eq_ok.mp hkey) (forall₂_standsFor_of_toEntries hothers)

/-- The entries that operations are decoded to are all kept if the positions of a list are apart, and if they are
as many. -/
theorem distinctBy_toEntries_iff (h : toEntries associative operations = .ok entries)
    (hnames : (operations.map Prod.fst).Nodup) :
    (distinctBy Prod.fst entries).length = operations.length ↔
      Apart associative (operations.map Prod.fst) := by
  have hkeys := forall₂_standsFor_of_toEntries h
  have hlength := hkeys.length_eq
  rw [List.length_map, List.length_map] at hlength
  rw [hlength, length_distinctBy_eq_iff, nodup_keys_iff hkeys hnames]

mutual

/-- **What an operation is decoded to mirrors it** if and only if at every level the positions of lists are
apart. -/
theorem mirrors_iff : ∀ (op : Operation) (o : DiffOp), op.toOp = .ok o → op.AtEveryLevel Distinct →
    (op.Mirrors o ↔ op.AtEveryLevel Apart)
  | .add new, o, h, _ => by cases h; exact ⟨fun _ => trivial, fun _ => rfl⟩
  | .remove old, o, h, _ => by cases h; exact ⟨fun _ => trivial, fun _ => rfl⟩
  | .change old new, o, h, _ => by cases h; exact ⟨fun _ => trivial, fun _ => ⟨rfl, rfl⟩⟩
  | .diff associative operations, o, h, ⟨hnames, hbelow⟩ => by
    obtain ⟨entries, hentries, rfl⟩ := toOp_diff_eq_ok.mp h
    have ih := entriesMirror_iff associative operations entries hentries hbelow
    have hlevel := distinctBy_toEntries_iff hentries hnames
    have hkeys := nodup_keys_iff (forall₂_standsFor_of_toEntries hentries) hnames
    rw [Operation.Mirrors, Operation.AtEveryLevel]
    constructor
    · rintro ⟨-, -, hmirror⟩
      have hapart := hlevel.mp hmirror.length_eq.symm
      rw [distinctBy_of_nodup Prod.fst (hkeys.mpr hapart)] at hmirror
      exact ⟨hapart, ih.mp hmirror⟩
    · rintro ⟨hapart, hrest⟩
      rw [distinctBy_of_nodup Prod.fst (hkeys.mpr hapart)]
      exact ⟨rfl, rfl, ih.mpr hrest⟩

theorem entriesMirror_iff (associative : Bool) : ∀ (operations : List (Text.CodeText × Operation))
    (entries : List (DiffKey × DiffOp)), toEntries associative operations = .ok entries →
      BelowEveryName Distinct operations →
        (EntriesMirror associative operations entries ↔ BelowEveryName Apart operations)
  | [], entries, h, _ => by cases h; exact ⟨fun _ => trivial, fun _ => trivial⟩
  | (name, op) :: rest, entries, h, ⟨hop, hrest⟩ => by
    obtain ⟨key, o, others, hkey, ho, hothers, rfl⟩ := toEntries_cons_eq_ok.mp h
    have ihop := mirrors_iff op o ho hop
    have ihrest := entriesMirror_iff associative rest others hothers hrest
    rw [EntriesMirror, BelowEveryName, ihop, ihrest, and_iff_right (toKey_eq_ok.mp hkey)]

end

/-! ### Diffs that were read -/

theorem belowEveryName_distinctBy {P : Bool → List Text.CodeText → Prop} (h : BelowEveryName P operations) :
    BelowEveryName P (distinctBy Prod.fst operations) :=
  belowEveryName_iff.mpr fun e he => belowEveryName_iff.mp h e (mem_of_mem_distinctBy Prod.fst he)

/-- The operations of a level with distinct names at that level and at every one below. -/
def AllDistinct (operations : List (Text.CodeText × Operation)) : Prop :=
  (operations.map Prod.fst).Nodup ∧ BelowEveryName Distinct operations

theorem allDistinct_of_diffOf {members : Members} {part : Checked (List (Text.CodeText × Operation))}
    {d : DiffMessage} (h : Operation.diffOf members part = .ok d)
    (hpart : ∀ operations, part = .ok operations → AllDistinct operations) : AllDistinct d.operations := by
  obtain ⟨hparts, -⟩ := Checked.guarded_eq_ok.mp h
  obtain ⟨f, operations, hf, hoperations, rfl⟩ := Checked.and_eq_ok.mp hparts
  obtain ⟨g, associative, hg, -, rfl⟩ := Checked.and_eq_ok.mp hf
  obtain ⟨u, -, rfl⟩ := Checked.map_eq_ok.mp hg
  exact hpart operations hoperations

mutual

theorem distinct_ofValue : ∀ (v : Value) (op : Operation), Operation.ofValue v = .ok op →
    op.AtEveryLevel Distinct
  | .obj members, op, h => by
    have ih := allDistinct_operationsIn members
    rw [Operation.ofValue] at h
    split at h
    · cases h
    · split_ifs at h
      · obtain ⟨hop, -⟩ := Checked.guarded_eq_ok.mp (Checked.under_eq_ok.mp h)
        obtain ⟨new, -, rfl⟩ := Checked.map_eq_ok.mp hop
        trivial
      · obtain ⟨hop, -⟩ := Checked.guarded_eq_ok.mp (Checked.under_eq_ok.mp h)
        obtain ⟨old, -, rfl⟩ := Checked.map_eq_ok.mp hop
        trivial
      · obtain ⟨hop, -⟩ := Checked.guarded_eq_ok.mp (Checked.under_eq_ok.mp h)
        obtain ⟨f, new, hf, -, rfl⟩ := Checked.and_eq_ok.mp hop
        obtain ⟨old, -, rfl⟩ := Checked.map_eq_ok.mp hf
        trivial
      · obtain ⟨d, hd, rfl⟩ := Checked.map_eq_ok.mp (Checked.under_eq_ok.mp h)
        exact allDistinct_of_diffOf hd ih
      · cases h
    · cases h
  | .null, _, h | .bool _, _, h | .int _, _, h | .float _, _, h | .str _, _, h | .arr _, _, h => by
    cases h

theorem allDistinct_operationsIn : ∀ (members : Members) (operations : List (Text.CodeText × Operation)),
    (Operation.operationsIn members).getD (.ok []) = .ok operations → AllDistinct operations
  | [], operations, h => by
    cases h
    exact ⟨List.nodup_nil, trivial⟩
  | (name, v) :: rest, operations, h => by
    have ihv := allDistinct_operationsOf v
    have ihrest := allDistinct_operationsIn rest
    rw [Operation.operationsIn] at h
    split at h
    · rename_i part hpart
      rw [hpart] at ihrest
      exact ihrest operations h
    · split at h
      · exact ihv operations (Checked.under_eq_ok.mp h)
      · cases h
        exact ⟨List.nodup_nil, trivial⟩

theorem allDistinct_operationsOf : ∀ (v : Value) (operations : List (Text.CodeText × Operation)),
    Operation.operationsOf v = .ok operations → AllDistinct operations
  | .obj members, operations, h => by
    have ih := distinct_each members
    rw [Operation.operationsOf] at h
    obtain ⟨all, hall, rfl⟩ := Checked.map_eq_ok.mp h
    exact ⟨nodup_map_distinctBy Prod.fst all, belowEveryName_distinctBy (ih all hall)⟩
  | .null, _, h | .bool _, _, h | .int _, _, h | .float _, _, h | .str _, _, h | .arr _, _, h => by
    cases h

theorem distinct_each : ∀ (members : Members) (operations : List (Text.CodeText × Operation)),
    Operation.each members = .ok operations → BelowEveryName Distinct operations
  | [], operations, h => by
    cases h
    trivial
  | (name, v) :: rest, operations, h => by
    have ihv := distinct_ofValue v
    have ihrest := distinct_each rest
    rw [Operation.each] at h
    obtain ⟨f, others, hf, hothers, rfl⟩ := Checked.and_eq_ok.mp h
    obtain ⟨op, hop, rfl⟩ := Checked.map_eq_ok.mp hf
    exact ⟨ihv op (Checked.under_eq_ok.mp hop), ihrest others hothers⟩

end

/-- **A diff that was read has distinct names at every level.** -/
theorem allDistinct_of_readMessage {s : List Char} {m : DiffMessage}
    (h : readMessage DiffMessage.ofValue s = .ok m) : AllDistinct m.operations := by
  unfold readMessage at h
  split at h
  · rename_i v _
    cases v with
    | obj members => exact allDistinct_of_diffOf h (allDistinct_operationsIn members)
    | _ => cases h
  · cases h

namespace DiffMessage

/-- Something holds at every level of a diff. -/
def AtEveryLevel (P : Bool → List Text.CodeText → Prop) (m : DiffMessage) : Prop :=
  (Operation.ofDiff m).AtEveryLevel P

instance {P : Bool → List Text.CodeText → Prop} [∀ associative names, Decidable (P associative names)]
    (m : DiffMessage) : Decidable (m.AtEveryLevel P) := (Operation.ofDiff m).decidableAtEveryLevel

theorem toDiff_eq_ok {form : DiffForm} {m : DiffMessage} {d : Diff} : m.toDiff form = .ok d ↔
    ∃ entries, toEntries m.associative m.operations = .ok entries ∧
      d = ⟨form, distinctBy Prod.fst entries, m.associative⟩ := by
  unfold toDiff
  exact Outcome.bind_pure_eq_ok

/-- **What decoding keeps of a diff that was read.** It is decoded if and only if at every level the positions of
lists are numbers. What it is decoded to mirrors it if and only if at every level they are different numbers; then
it has as many leaves. -/
theorem decoded_iff_and_mirrors_iff {s : List Char} {m : DiffMessage} (form : DiffForm)
    (h : readMessage DiffMessage.ofValue s = .ok m) :
    ((∃ d, m.toDiff form = .ok d) ↔ m.AtEveryLevel Numbered) ∧
      ∀ d, m.toDiff form = .ok d →
        (d.associative = m.associative ∧ EntriesMirror m.associative m.operations d.entries ↔
          m.AtEveryLevel Apart) ∧
        (m.AtEveryLevel Apart → d.count = Operation.countAll m.operations) := by
  have hdistinct : (Operation.ofDiff m).AtEveryLevel Distinct := allDistinct_of_readMessage h
  have hdecoded := exists_toOp_iff (Operation.ofDiff m)
  refine ⟨?_, fun d hd => ?_⟩
  · rw [AtEveryLevel, ← hdecoded]
    constructor
    · rintro ⟨d, hd⟩
      obtain ⟨entries, hentries, -⟩ := toDiff_eq_ok.mp hd
      exact ⟨_, toOp_diff_eq_ok.mpr ⟨entries, hentries, rfl⟩⟩
    · rintro ⟨o, ho⟩
      obtain ⟨entries, hentries, -⟩ := toOp_diff_eq_ok.mp ho
      exact ⟨_, toDiff_eq_ok.mpr ⟨entries, hentries, rfl⟩⟩
  · obtain ⟨entries, hentries, rfl⟩ := toDiff_eq_ok.mp hd
    have hop : (Operation.ofDiff m).toOp = .ok (.nested .plain (distinctBy Prod.fst entries) m.associative) :=
      toOp_diff_eq_ok.mpr ⟨entries, hentries, rfl⟩
    have hiff := mirrors_iff _ _ hop hdistinct
    have hmirrors : m.AtEveryLevel Apart ↔
        EntriesMirror m.associative m.operations (distinctBy Prod.fst entries) := by
      rw [AtEveryLevel, ← hiff, Operation.ofDiff, Operation.Mirrors, and_iff_right rfl, and_iff_right rfl]
    exact ⟨by rw [hmirrors, and_iff_right rfl], fun hapart =>
      countEntries_eq_of_mirror _ _ _ (hmirrors.mp hapart)⟩

/-- The text of a diff that is a list of two operations with given names. -/
def listText (first second : String) : List Char :=
  ("\x7b\"isassoc\":false,\"operations\":\x7b\"" ++ first ++ "\":\x7b\"type\":\"add\",\"newvalue\":1\x7d,\"" ++
    second ++ "\":\x7b\"type\":\"remove\",\"oldvalue\":2\x7d\x7d\x7d").toList

/-- Positions in digits of two scripts. -/
theorem decoded_iff_and_mirrors_iff_scripts :
    ∃ m d, readMessage DiffMessage.ofValue (listText "7" "٨") = .ok m ∧ m.toDiff .plain = .ok d ∧
      EntriesMirror m.associative m.operations d.entries ∧ d.count = Operation.countAll m.operations := by
  obtain ⟨m, hm, hcheck⟩ := Outcome.exists_ok_of_any (p := fun m : DiffMessage =>
    decide (m.AtEveryLevel Numbered ∧ m.AtEveryLevel Apart))
    (x := readMessage DiffMessage.ofValue (listText "7" "٨")) (by decide +kernel)
  obtain ⟨hnumbered, hapart⟩ := of_decide_eq_true hcheck
  obtain ⟨hdecoded, hkept⟩ := decoded_iff_and_mirrors_iff .plain hm
  obtain ⟨d, hd⟩ := hdecoded.mpr hnumbered
  obtain ⟨hmirrors, hcount⟩ := hkept d hd
  exact ⟨m, d, hm, hd, (hmirrors.mpr hapart).2, hcount hapart⟩

/-- **Decoding fails at a superscript and loses an operation to a leading zero**, in diffs that were read. -/
theorem decoding_fails_or_loses :
    (∃ m, readMessage DiffMessage.ofValue (listText "²" "0") = .ok m ∧ ∀ d, m.toDiff .plain ≠ .ok d) ∧
      ∃ m d, readMessage DiffMessage.ofValue (listText "1" "01") = .ok m ∧ m.toDiff .plain = .ok d ∧
        m.operations.length = 2 ∧ Operation.countAll m.operations = 2 ∧ d.entries.length = 1 ∧
          d.count = 1 := by
  constructor
  · obtain ⟨m, hm, hcheck⟩ := Outcome.exists_ok_of_any (p := fun m : DiffMessage =>
      (m.toDiff .plain).toOption.isNone) (x := readMessage DiffMessage.ofValue (listText "²" "0"))
      (by decide +kernel)
    refine ⟨m, hm, fun d hd => ?_⟩
    rw [hd] at hcheck
    cases hcheck
  · obtain ⟨m, hm, hcheck⟩ := Outcome.exists_ok_of_any (p := fun m : DiffMessage =>
      (m.operations.length == 2 && Operation.countAll m.operations == 2) &&
        (m.toDiff .plain).toOption.any fun d => d.entries.length == 1 && d.count == 1)
      (x := readMessage DiffMessage.ofValue (listText "1" "01")) (by decide +kernel)
    obtain ⟨hm2, hd⟩ := Bool.and_eq_true_iff.mp hcheck
    obtain ⟨d, hd, hd1⟩ := Outcome.exists_ok_of_any hd
    simp only [Bool.and_eq_true, beq_iff_eq] at hm2 hd1
    exact ⟨m, d, hm, hd, hm2.1, hm2.2, hd1.1, hd1.2⟩

end DiffMessage

/-! ### Changes -/

/-- What a message is decoded to, part by part. -/
theorem ChangeMessage.toChange_eq_ok {m : ChangeMessage} {c : EntityChange} : m.toChange = .ok c ↔
    ∃ entity time d, EntityId.parse m.entity = .ok entity ∧ toTime m.time = .ok time ∧
      ∃ hd : m.diff.toDiff (formOf entity.isItem).val = .ok d,
        c = ⟨entity.isItem, entity, d, m.action, m.revision, time, m.metadata,
          form_toDiff hd ▸ (formOf entity.isItem).property⟩ := by
  constructor
  · intro h
    obtain ⟨entity, hentity, h⟩ := Outcome.bind_eq_ok.mp h
    obtain ⟨time, htime, h⟩ := Outcome.bind_eq_ok.mp h
    dsimp only at h
    split at h
    · cases h
    · rename_i d hd
      cases h
      exact ⟨entity, time, d, Outcome.mapError_eq_ok.mp hentity, Outcome.mapError_eq_ok.mp htime, hd, rfl⟩
  · rintro ⟨entity, time, d, hentity, htime, hd, rfl⟩
    refine Outcome.bind_eq_ok.mpr ⟨entity, Outcome.mapError_eq_ok.mpr hentity,
      Outcome.bind_eq_ok.mpr ⟨time, Outcome.mapError_eq_ok.mpr htime, ?_⟩⟩
    dsimp only
    split
    · rename_i e he
      rw [hd] at he
      cases he
    · rename_i d' hd'
      rw [hd] at hd'
      cases hd'
      rfl

end PageInvalidation.Wire
