import PageInvalidation.Proofs.Entity
import PageInvalidation.Proofs.Wire.Decoding
import PageInvalidation.Proofs.Wire.RoundTrip

/-! # Changes read back

A diff is *carried* if its keys and its forms are those of a diff that a message was decoded to
(`carried_of_toOp`). A change of an entity with a carried diff of carried values is written as a message, and the
message, read again, is decoded to the same change (`ChangeMessage.toChange_of_written`). Diffs are followed
through their operations, with one statement for an operation and one for entries. -/

namespace PageInvalidation

variable {associative : Bool} {P : Value → Prop} {N : Text.CodeText → Prop}

/-! ### Carried diffs -/

/-- A key that a name stands for, in a list or in an association; as a name it has a property. -/
def DiffKey.Carried (N : Text.CodeText → Prop) (associative : Bool) : DiffKey → Prop
  | .name s => N s ∧ ¬(associative = false ∧ Wire.IsPosition s)
  | .index n => associative = false ∧ 0 ≤ n ∧ (Json.int n : Value).Portable

instance [DecidablePred N] : DecidablePred (DiffKey.Carried N associative)
  | .name _ => inferInstanceAs (Decidable (_ ∧ ¬(_ ∧ _)))
  | .index _ => inferInstanceAs (Decidable (_ ∧ _ ∧ _))

namespace DiffOp

mutual

/-- A change with carried keys below it, in diffs without a form of their own, whose values and names have a
property each. -/
def Carried (P : Value → Prop) (N : Text.CodeText → Prop) : DiffOp → Prop
  | .add new => P new
  | .remove old => P old
  | .change old new => P old ∧ P new
  | .unspecified => False
  | .nested form entries associative =>
    form = .plain ∧ (entries.map Prod.fst).Nodup ∧ EntriesCarried P N associative entries

/-- Entries with carried keys at every level. -/
def EntriesCarried (P : Value → Prop) (N : Text.CodeText → Prop) (associative : Bool) :
    List (DiffKey × DiffOp) → Prop
  | [] => True
  | (key, op) :: rest => key.Carried N associative ∧ op.Carried P N ∧ EntriesCarried P N associative rest

end

section Decidable

variable [DecidablePred P] [DecidablePred N]

mutual

/-- Whether a change is carried can be decided. -/
def decidableCarried : ∀ o : DiffOp, Decidable (o.Carried P N)
  | .add new => inferInstanceAs (Decidable (P new))
  | .remove old => inferInstanceAs (Decidable (P old))
  | .change old new => inferInstanceAs (Decidable (P old ∧ P new))
  | .unspecified => isFalse id
  | .nested _ entries associative =>
    have := decidableEntriesCarried associative entries
    inferInstanceAs (Decidable (_ ∧ _ ∧ _))

/-- Whether entries are carried can be decided. -/
def decidableEntriesCarried (associative : Bool) : ∀ entries : List (DiffKey × DiffOp),
    Decidable (EntriesCarried P N associative entries)
  | [] => isTrue trivial
  | (_, o) :: rest =>
    have := o.decidableCarried
    have := decidableEntriesCarried associative rest
    inferInstanceAs (Decidable (_ ∧ _ ∧ _))

end

end Decidable

instance [DecidablePred P] [DecidablePred N] (entries : List (DiffKey × DiffOp)) :
    Decidable (EntriesCarried P N associative entries) := decidableEntriesCarried associative entries

theorem entriesCarried_iff : ∀ {entries : List (DiffKey × DiffOp)}, EntriesCarried P N associative entries ↔
    ∀ e ∈ entries, e.1.Carried N associative ∧ e.2.Carried P N
  | [] => by simp [EntriesCarried]
  | (key, op) :: rest => by
    have ih : EntriesCarried P N associative rest ↔ ∀ e ∈ rest, e.1.Carried N associative ∧ e.2.Carried P N :=
      entriesCarried_iff
    rw [EntriesCarried, ih, List.forall_mem_cons, and_assoc]

mutual

/-- How deep the text of a change nests. A diff nests its operations in an object of their own. -/
def nesting : DiffOp → Nat
  | .add new => new.depth + 1
  | .remove old => old.depth + 1
  | .change old new => max old.depth new.depth + 1
  | .unspecified => 0
  | .nested _ entries _ => entriesNesting entries + 2

/-- How deep the texts of entries nest. -/
def entriesNesting : List (DiffKey × DiffOp) → Nat
  | [] => 0
  | (_, op) :: rest => max op.nesting (entriesNesting rest)

end

end DiffOp

namespace EntityChange

/-- A change that its message brings back: with the class and the form of diffs of its entity, which was read from
a text, without a time, and with a carried diff, nowhere with a lone surrogate. -/
structure Carried (c : EntityChange) : Prop where
  parsed : ∃ s, EntityId.parse s = .ok c.entity
  isItem : c.isItem = c.entity.isItem
  form : c.diff.form = (Wire.formOf c.entity.isItem).val
  time : c.time = none
  revision : (Json.int c.revision : Value).Portable
  metadata : (Json.obj c.metadata : Value).Portable
  keys : (c.diff.entries.map Prod.fst).Nodup
  entries : DiffOp.EntriesCarried Json.Portable (Text.CodeText.isScalar · = true) c.diff.associative c.diff.entries

/-- How deep the text of a change nests. -/
def nesting (c : EntityChange) : Nat :=
  max (DiffOp.entriesNesting c.diff.entries + 2) (Json.membersDepth c.metadata + 1) + 1

end EntityChange

namespace Wire

open DiffOp (EntriesCarried entriesNesting)

variable {name : Text.CodeText} {key : DiffKey} {operations : List (Text.CodeText × Operation)}
  {entries : List (DiffKey × DiffOp)}

/-! ### Keys and their texts -/

theorem text_index (n : ℕ) : (DiffKey.index n).text = .ofList (Nat.toDigits 10 n) := Text.CodeText.ofString_ofList _

theorem isPosition_text_index (n : ℕ) : IsPosition (DiffKey.index n).text := by
  rw [text_index]
  refine ⟨mt List.map_eq_nil_iff.mp Nat.toDigits_ne_nil, fun p hp => ?_⟩
  obtain ⟨c, hc, rfl⟩ := List.mem_map.mp hp
  obtain ⟨ds, hds⟩ : ∃ ds, Text.decimals? [c] = some ds :=
    ⟨_, Text.decimals?_of_isDigit (by simpa using Text.isDigit_of_mem_toDigits c hc)⟩
  obtain ⟨d, _, hd, -, -⟩ := Text.decimals?_cons.mp hds
  rw [Text.CodePoint.satisfies_scalar, Text.isDigit, hd]
  rfl

theorem positionNumber?_text_index {n : ℕ} (h : (Nat.toDigits 10 n).length ≤ Text.maxDigits) :
    positionNumber? (DiffKey.index n).text = some n := by
  rw [positionNumber?, text_index, Text.CodeText.replaced_ofList,
    Text.decimals?_of_isDigit Text.isDigit_of_mem_toDigits]
  simp [Option.filter, h, Text.ofDigits_toDigits]

/-- **The text of a carried key stands for it.** -/
theorem standsFor_text (h : key.Carried N associative) : StandsFor associative key.text key := by
  cases key with
  | name s => exact .inr ⟨h.2, rfl⟩
  | index n =>
    obtain ⟨ha, hnonneg, hdigits⟩ := h
    obtain ⟨m, rfl⟩ := Int.eq_ofNat_of_zero_le hnonneg
    exact .inl ⟨ha, isPosition_text_index m, m, positionNumber?_text_index hdigits, rfl⟩

theorem isScalar_text (h : key.Carried (Text.CodeText.isScalar · = true) associative) :
    Text.CodeText.isScalar key.text = true := by
  cases key with
  | name s => exact h.1
  | index n => exact Text.CodeText.isScalar_ofString _

theorem carried_of_standsFor (h : StandsFor associative name key) : key.Carried (fun _ => True) associative := by
  rcases h with ⟨ha, -, n, hn, rfl⟩ | ⟨hnot, rfl⟩
  · refine ⟨ha, Int.natCast_nonneg n, ?_⟩
    obtain ⟨ds, hds, rfl⟩ := Option.map_eq_some_iff.mp hn
    obtain ⟨hdecimals, hlength⟩ := Option.filter_eq_some_iff.mp hds
    have hlt : Text.ofDigits ds < 10 ^ ds.length := Text.ofDigits_lt (Text.lt_of_mem_decimals? hdecimals)
    have hmax : 10 ^ ds.length ≤ 10 ^ Text.maxDigits :=
      Nat.pow_le_pow_right (by decide) (of_decide_eq_true hlength)
    exact (Nat.length_toDigits_le_iff (by decide) (by decide)).mpr (hlt.trans_le hmax)
  · exact ⟨trivial, hnot⟩

theorem nodup_texts (h : ∀ key ∈ entries.map Prod.fst, key.Carried N associative)
    (hkeys : (entries.map Prod.fst).Nodup) : ((entries.map Prod.fst).map DiffKey.text).Nodup :=
  hkeys.map_on fun _ hk _ hk' htext =>
    ((standsFor_text (h _ hk)).key_eq_iff (standsFor_text (h _ hk'))).mpr (.inl htext)

/-! ### What messages are decoded to -/

mutual

/-- **A change that an operation is decoded to is carried.** -/
theorem carried_of_toOp : ∀ (op : Operation) (o : DiffOp), op.toOp = .ok o →
    o.Carried (fun _ => True) fun _ => True
  | .add new, o, h => by cases h; trivial
  | .remove old, o, h => by cases h; trivial
  | .change old new, o, h => by cases h; exact ⟨trivial, trivial⟩
  | .diff associative operations, o, h => by
    obtain ⟨entries, hentries, rfl⟩ := toOp_diff_eq_ok.mp h
    have ih := DiffOp.entriesCarried_iff.mp (carried_of_toEntries associative operations entries hentries)
    refine ⟨rfl, nodup_map_distinctBy Prod.fst entries, DiffOp.entriesCarried_iff.mpr fun e he => ?_⟩
    exact ih e (mem_of_mem_distinctBy Prod.fst he)

theorem carried_of_toEntries (associative : Bool) : ∀ (operations : List (Text.CodeText × Operation))
    (entries : List (DiffKey × DiffOp)), toEntries associative operations = .ok entries →
      EntriesCarried (fun _ => True) (fun _ => True) associative entries
  | [], entries, h => by cases h; trivial
  | (name, op) :: rest, entries, h => by
    obtain ⟨key, o, others, hkey, ho, hothers, rfl⟩ := toEntries_cons_eq_ok.mp h
    exact ⟨carried_of_standsFor (toKey_eq_ok.mp hkey), carried_of_toOp op o ho,
      carried_of_toEntries associative rest others hothers⟩

end

/-! ### Operations for changes -/

/-- An operation is the one for a change, and is decoded to it. -/
structure Operation.Carries (op : Operation) (o : DiffOp) : Prop where
  encoded : ofOp o = .ok op
  decoded : op.toOp = .ok o
  portable : op.Portable
  depth : op.toValue.depth = o.nesting

/-- Operations are the ones for entries, and are decoded to them. -/
structure OperationsCarry (associative : Bool) (operations : List (Text.CodeText × Operation))
    (entries : List (DiffKey × DiffOp)) : Prop where
  encoded : ofEntries entries = .ok operations
  decoded : toEntries associative operations = .ok entries
  names : operations.map Prod.fst = (entries.map Prod.fst).map DiffKey.text
  portable : OperationsPortable operations
  depth : Json.membersDepth (Operation.membersOf operations) = entriesNesting entries

theorem ofOp_nested {form : DiffForm} (h : ofEntries entries = .ok operations) :
    ofOp (.nested form entries associative) = .ok (.diff associative (distinctBy Prod.fst operations)) := by
  rw [ofOp]
  exact Outcome.bind_eq_ok.mpr ⟨operations, h, rfl⟩

theorem ofEntries_cons {op : Operation} {o : DiffOp} (ho : ofOp o = .ok op)
    (h : ofEntries entries = .ok operations) :
    ofEntries ((key, o) :: entries) = .ok ((key.text, op) :: operations) := by
  rw [ofEntries]
  exact Outcome.bind_eq_ok.mpr ⟨op, ho, Outcome.bind_eq_ok.mpr ⟨operations, h, rfl⟩⟩

theorem OperationsCarry.nodup (h : OperationsCarry associative operations entries)
    (hentries : EntriesCarried P N associative entries) (hkeys : (entries.map Prod.fst).Nodup) :
    (operations.map Prod.fst).Nodup := by
  have hcarried : ∀ key ∈ entries.map Prod.fst, key.Carried N associative := fun key hkey => by
    obtain ⟨e, he, rfl⟩ := List.mem_map.mp hkey
    exact (DiffOp.entriesCarried_iff.mp hentries e he).1
  rw [h.names]
  exact nodup_texts hcarried hkeys

theorem depth_add (v : Value) : (Operation.add v).toValue.depth = v.depth + 1 := by
  have hpos := Json.depth_pos v
  simp only [Operation.toValue, Json.depth, Json.membersDepth]
  omega

theorem depth_remove (v : Value) : (Operation.remove v).toValue.depth = v.depth + 1 := by
  have hpos := Json.depth_pos v
  simp only [Operation.toValue, Json.depth, Json.membersDepth]
  omega

theorem depth_change (v w : Value) : (Operation.change v w).toValue.depth = max v.depth w.depth + 1 := by
  have hpos := Json.depth_pos v
  simp only [Operation.toValue, Json.depth, Json.membersDepth]
  omega

theorem depth_diff (associative : Bool) (operations : List (Text.CodeText × Operation)) :
    (Operation.diff associative operations).toValue.depth = Json.membersDepth (Operation.membersOf operations) + 2 := by
  simp only [Operation.toValue, Json.depth, Json.membersDepth]
  omega

mutual

/-- **For a carried change there is an operation that is decoded to it.** -/
theorem exists_carries : ∀ o : DiffOp, o.Carried Json.Portable (Text.CodeText.isScalar · = true) →
    ∃ op : Operation, op.Carries o
  | .add new, h => ⟨.add new, rfl, rfl, h, depth_add new⟩
  | .remove old, h => ⟨.remove old, rfl, rfl, h, depth_remove old⟩
  | .change old new, h => ⟨.change old new, rfl, rfl, h, depth_change old new⟩
  | .unspecified, h => h.elim
  | .nested form entries associative, ⟨hform, hkeys, hentries⟩ => by
    obtain ⟨operations, h⟩ := exists_operationsCarry associative entries hentries
    have hnames := h.nodup hentries hkeys
    refine ⟨.diff associative operations, ?_, ?_, ⟨hnames, h.portable⟩, ?_⟩
    · rw [ofOp_nested h.encoded, distinctBy_of_nodup Prod.fst hnames]
    · exact toOp_diff_eq_ok.mpr ⟨entries, h.decoded, by rw [distinctBy_of_nodup Prod.fst hkeys, hform]⟩
    · rw [depth_diff, DiffOp.nesting, h.depth]

theorem exists_operationsCarry (associative : Bool) : ∀ entries : List (DiffKey × DiffOp),
    EntriesCarried Json.Portable (Text.CodeText.isScalar · = true) associative entries →
      ∃ operations, OperationsCarry associative operations entries
  | [], _ => ⟨[], rfl, rfl, rfl, trivial, rfl⟩
  | (key, o) :: rest, ⟨hkey, ho, hrest⟩ => by
    obtain ⟨op, hop⟩ := exists_carries o ho
    obtain ⟨operations, h⟩ := exists_operationsCarry associative rest hrest
    refine ⟨(key.text, op) :: operations, ofEntries_cons hop.encoded h.encoded, ?_, ?_,
      ⟨isScalar_text hkey, hop.portable, h.portable⟩, ?_⟩
    · exact toEntries_cons_eq_ok.mpr ⟨key, o, rest, toKey_eq_ok.mpr (standsFor_text hkey), hop.decoded,
        h.decoded, rfl⟩
    · rw [List.map_cons, List.map_cons, List.map_cons, h.names]
    · rw [Operation.membersOf, Json.membersDepth, DiffOp.entriesNesting, hop.depth, h.depth]

end

/-! ### Changes and their messages -/

theorem DiffMessage.exists_ofDiff {d : Diff} (hkeys : (d.entries.map Prod.fst).Nodup)
    (hentries : EntriesCarried Json.Portable (Text.CodeText.isScalar · = true) d.associative d.entries) :
    ∃ m, ofDiff d = .ok m ∧ m.toDiff d.form = .ok d ∧ (Operation.ofDiff m).Portable ∧
      m.toValue.depth = entriesNesting d.entries + 2 := by
  obtain ⟨operations, h⟩ := exists_operationsCarry _ _ hentries
  have hnames := h.nodup hentries hkeys
  refine ⟨⟨d.associative, operations⟩, ?_, ?_, ⟨hnames, h.portable⟩, ?_⟩
  · refine Outcome.bind_eq_ok.mpr ⟨operations, h.encoded, ?_⟩
    rw [distinctBy_of_nodup Prod.fst hnames]
    rfl
  · exact toDiff_eq_ok.mpr ⟨d.entries, h.decoded, by rw [distinctBy_of_nodup Prod.fst hkeys]⟩
  · rw [← h.depth]
    exact depth_diff d.associative operations

namespace ChangeMessage

variable {c : EntityChange} {id : ℤ}

theorem exists_ofChange (h : c.Carried) (hid : (Json.int id : Value).Portable) : ∃ m,
    ofChange id c = .ok m ∧ m.toChange = .ok c ∧ m.Portable ∧ m.toValue.depth = c.nesting := by
  obtain ⟨s, hs⟩ := h.parsed
  obtain ⟨diff, hencoded, hdecoded, hportable, hdepth⟩ := DiffMessage.exists_ofDiff h.keys h.entries
  obtain ⟨isItem, entity, d, action, revision, time, metadata, hform⟩ := c
  have hisItem : isItem = entity.isItem := h.isItem
  have htime : time = none := h.time
  subst hisItem htime
  have hentity : EntityId.parse entity.serialization = .ok entity := EntityId.parse_serialization hs
  have hd : diff.toDiff (formOf entity.isItem).val = .ok d := h.form ▸ hdecoded
  obtain ⟨hwell, hspelled⟩ := EntityId.parse_eq_ok.mp hs
  have hm : Portable ⟨id, entity.serialization, action, revision, none, diff, metadata⟩ :=
    ⟨hspelled.symm ▸ hwell.isScalar, hid, h.revision, nofun, hportable, h.metadata⟩
  have hvalue := depth_toValue ⟨id, entity.serialization, action, revision, none, diff, metadata⟩
  rw [hdepth] at hvalue
  exact ⟨_, Outcome.bind_eq_ok.mpr ⟨diff, hencoded, rfl⟩,
    toChange_eq_ok.mpr ⟨entity, none, d, hentity, rfl, hd, rfl⟩, hm, hvalue⟩

end ChangeMessage

end Wire

end PageInvalidation
