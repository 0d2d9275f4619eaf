import PageInvalidation.Proofs.Wire.Decoding
import PageInvalidation.Proofs.Wire.Writing

/-! # Messages read back

A message about a change is read from its text as it was written (`ChangeMessage.readMessage_write`): its members
from the object, and the operations of its diff from their values (`Operation.ofValue_toValue`). -/

namespace PageInvalidation.Wire

/-! ### Members -/

section Members

variable {α : Type} {name : Text.CodeText} {decode : Value → Checked α} {members : Members} {v : Value} {a default : α}

theorem member?_of_mem (hnames : (members.map Prod.fst).Nodup) (h : (name, v) ∈ members) :
    Json.member? name members = some v := by
  obtain ⟨m, hm⟩ : ∃ m, members.reverse.find? (fun m => decide (m.1 = name)) = some m :=
    Option.isSome_iff_exists.mp (List.find?_isSome.mpr ⟨(name, v), List.mem_reverse.mpr h, by simp⟩)
  have hname : m.1 = name := by simpa using List.find?_some hm
  have hmem : m ∈ members := List.mem_reverse.mp (List.mem_of_find?_eq_some hm)
  rw [Json.member?, hm, List.inj_on_of_nodup_map hnames hmem h hname]
  rfl

theorem required_eq_ok (hnames : (members.map Prod.fst).Nodup) (h : (name, v) ∈ members)
    (hv : decode v = .ok a) : required name decode members = .ok a := by
  unfold required
  rw [member?_of_mem hnames h]
  exact Checked.under_eq_ok.mpr hv

theorem optional_eq_ok (hnames : (members.map Prod.fst).Nodup) (h : (name, v) ∈ members)
    (hv : decode v = .ok a) : optional name default decode members = .ok a := by
  unfold optional
  rw [member?_of_mem hnames h]
  exact Checked.under_eq_ok.mpr hv

theorem extras_eq_nil {known : List Text.CodeText} (h : ∀ name ∈ members.map Prod.fst, name ∈ known) :
    extras known members = [] := by
  have hfilter : (distinct (members.map Prod.fst)).filter (!known.contains ·) = [] :=
    List.filter_eq_nil_iff.mpr fun name hname => by simpa using h name (mem_distinct.mp hname)
  rw [extras, hfilter]
  rfl

/-- An object with just the members that are known is read if these are. -/
theorem object_eq_ok {known : List Text.CodeText} {decode : Members → Checked α} (hknown : members.map Prod.fst = known)
    (h : decode members = .ok a) : object known decode (.obj members) = .ok a :=
  Checked.guarded_eq_ok.mpr ⟨h, extras_eq_nil fun _ hname => hknown ▸ hname⟩

end Members

/-! ### Operations and their values -/

mutual

/-- An operation that a text carries: its values are carried, and the names of each diff are distinct and have no
lone surrogates. -/
def Operation.Portable : Operation → Prop
  | .add new => new.Portable
  | .remove old => old.Portable
  | .change old new => old.Portable ∧ new.Portable
  | .diff _ operations => (operations.map Prod.fst).Nodup ∧ OperationsPortable operations

/-- Operations that a text carries. -/
def OperationsPortable : List (Text.CodeText × Operation) → Prop
  | [] => True
  | (name, op) :: rest => Text.CodeText.isScalar name = true ∧ op.Portable ∧ OperationsPortable rest

end

namespace Operation

variable {v w : Value} {operations : List (Text.CodeText × Operation)}

theorem any_eq_ok (h : v.Portable) : any v = .ok v :=
  congrArg Except.ok (Json.withoutRepeats_of_portable v h)

theorem map_fst_membersOf (operations : List (Text.CodeText × Operation)) :
    (membersOf operations).map Prod.fst = operations.map Prod.fst := by
  induction operations with
  | nil => rfl
  | cons operation rest ih =>
    obtain ⟨name, op⟩ := operation
    rw [membersOf, List.map_cons, List.map_cons, ih]

theorem ofValue_add (h : v.Portable) : ofValue (toValue (.add v)) = .ok (.add v) := by
  have hnames : (([("type", .str "add"), ("newvalue", v)] : Members).map Prod.fst).Nodup := by simp
  have htag : Json.member? "type" _ = some (Json.str "add") := member?_of_mem hnames (by simp)
  have hnew : required "newvalue" any _ = .ok v := required_eq_ok hnames (by simp) (any_eq_ok h)
  rw [toValue, ofValue, htag]
  dsimp only
  rw [if_pos rfl]
  refine Checked.under_eq_ok.mpr (Checked.guarded_eq_ok.mpr ⟨?_, extras_eq_nil (by simp)⟩)
  exact Checked.map_eq_ok.mpr ⟨v, hnew, rfl⟩

theorem ofValue_remove (h : v.Portable) : ofValue (toValue (.remove v)) = .ok (.remove v) := by
  have hnames : (([("type", .str "remove"), ("oldvalue", v)] : Members).map Prod.fst).Nodup := by simp
  have htag : Json.member? "type" _ = some (Json.str "remove") := member?_of_mem hnames (by simp)
  have hold : required "oldvalue" any _ = .ok v := required_eq_ok hnames (by simp) (any_eq_ok h)
  rw [toValue, ofValue, htag]
  dsimp only
  rw [if_neg (by decide), if_pos rfl]
  refine Checked.under_eq_ok.mpr (Checked.guarded_eq_ok.mpr ⟨?_, extras_eq_nil (by simp)⟩)
  exact Checked.map_eq_ok.mpr ⟨v, hold, rfl⟩

theorem ofValue_change (hv : v.Portable) (hw : w.Portable) :
    ofValue (toValue (.change v w)) = .ok (.change v w) := by
  have hnames : (([("type", .str "change"), ("oldvalue", v), ("newvalue", w)] : Members).map Prod.fst).Nodup := by
    simp
  have htag : Json.member? "type" _ = some (Json.str "change") := member?_of_mem hnames (by simp)
  have hold : required "oldvalue" any _ = .ok v := required_eq_ok hnames (by simp) (any_eq_ok hv)
  have hnew : required "newvalue" any _ = .ok w := required_eq_ok hnames (by simp) (any_eq_ok hw)
  rw [toValue, ofValue, htag]
  dsimp only
  rw [if_neg (by decide), if_neg (by decide), if_pos rfl]
  refine Checked.under_eq_ok.mpr (Checked.guarded_eq_ok.mpr ⟨?_, extras_eq_nil (by simp)⟩)
  exact Checked.and_eq_ok.mpr ⟨.change v, w, Checked.map_eq_ok.mpr ⟨v, hold, rfl⟩, hnew, rfl⟩

theorem diffOf_members (associative : Bool) (hnames : (operations.map Prod.fst).Nodup)
    (heach : each (membersOf operations) = .ok operations) :
    diffOf [("type", .str "diff"), ("isassoc", .bool associative), ("operations", .obj (membersOf operations))]
      ((operationsIn [("type", .str "diff"), ("isassoc", .bool associative),
        ("operations", .obj (membersOf operations))]).getD (.ok [])) = .ok ⟨associative, operations⟩ := by
  have hmembers : (([("type", .str "diff"), ("isassoc", .bool associative),
    ("operations", .obj (membersOf operations))] : Members).map Prod.fst).Nodup := by simp
  have htag : tagMember "diff" _ = .ok () := optional_eq_ok (v := .str "diff") hmembers (by simp) rfl
  have hassociative : optional "isassoc" true truth _ = .ok associative :=
    optional_eq_ok (v := .bool associative) hmembers (by simp) rfl
  have hoperations : (operationsIn [("type", .str "diff"), ("isassoc", .bool associative),
      ("operations", .obj (membersOf operations))]).getD (.ok []) = .ok operations := by
    simp only [operationsIn, operationsOf, if_true, Option.getD_some]
    refine Checked.under_eq_ok.mpr (Checked.map_eq_ok.mpr ⟨operations, heach, ?_⟩)
    exact distinctBy_of_nodup Prod.fst hnames
  refine Checked.guarded_eq_ok.mpr ⟨?_, extras_eq_nil (by simp)⟩
  refine Checked.and_eq_ok.mpr ⟨_, operations, Checked.and_eq_ok.mpr ⟨_, associative, ?_, hassociative, rfl⟩,
    hoperations, rfl⟩
  exact Checked.map_eq_ok.mpr ⟨(), htag, rfl⟩

mutual

/-- **An operation is read from its value as it was written.** -/
theorem ofValue_toValue : ∀ op : Operation, op.Portable → ofValue op.toValue = .ok op
  | .add _, h => ofValue_add h
  | .remove _, h => ofValue_remove h
  | .change _ _, h => ofValue_change h.1 h.2
  | .diff associative operations, h => by
    have hdiff := diffOf_members associative h.1 (each_membersOf operations h.2)
    have htag : Json.member? "type" [("type", .str "diff"), ("isassoc", .bool associative),
        ("operations", .obj (membersOf operations))] = some (Json.str "diff") :=
      member?_of_mem (by simp) (by simp)
    rw [toValue, ofValue, htag]
    dsimp only
    rw [if_neg (by decide), if_neg (by decide), if_neg (by decide), if_pos rfl]
    exact Checked.under_eq_ok.mpr (Checked.map_eq_ok.mpr ⟨_, hdiff, rfl⟩)

theorem each_membersOf : ∀ operations : List (Text.CodeText × Operation), OperationsPortable operations →
    each (membersOf operations) = .ok operations
  | [], _ => rfl
  | (name, op) :: rest, h => by
    rw [membersOf, each]
    refine Checked.and_eq_ok.mpr ⟨_, rest, Checked.map_eq_ok.mpr ⟨op, ?_, rfl⟩, each_membersOf rest h.2.2, rfl⟩
    exact Checked.under_eq_ok.mpr (ofValue_toValue op h.2.1)

end

mutual

/-- **The value of an operation is carried.** -/
theorem portable_toValue : ∀ op : Operation, op.Portable → op.toValue.Portable
  | .add _, h => ⟨by simp, by decide, by decide, by decide, h, trivial⟩
  | .remove _, h => ⟨by simp, by decide, by decide, by decide, h, trivial⟩
  | .change _ _, h => ⟨by simp, by decide, by decide, by decide, h.1, by decide, h.2, trivial⟩
  | .diff _ operations, h => by
    have hnames : ((membersOf operations).map Prod.fst).Nodup := by
      rw [map_fst_membersOf]
      exact h.1
    exact ⟨by simp, by decide, by decide, by decide, trivial, by decide,
      ⟨hnames, portable_membersOf operations h.2⟩, trivial⟩

theorem portable_membersOf : ∀ operations : List (Text.CodeText × Operation), OperationsPortable operations →
    Json.MembersPortable (membersOf operations)
  | [], _ => trivial
  | (_, op) :: rest, h => ⟨h.1, portable_toValue op h.2.1, portable_membersOf rest h.2.2⟩

end

end Operation

/-! ### Messages and their texts -/

theorem DiffMessage.ofValue_toValue (d : DiffMessage) (h : (Operation.ofDiff d).Portable) :
    DiffMessage.ofValue d.toValue = .ok d := by
  obtain ⟨associative, operations⟩ := d
  exact Operation.diffOf_members associative h.1 (Operation.each_membersOf operations h.2)

namespace ChangeMessage

variable {m : ChangeMessage}

/-- A message that a text carries. -/
structure Portable (m : ChangeMessage) : Prop where
  entity : Text.CodeText.isScalar m.entity = true
  id : (Json.int m.id : Value).Portable
  revision : (Json.int m.revision : Value).Portable
  time : ∀ t ∈ m.time, (Json.int t : Value).Portable
  diff : (Operation.ofDiff m.diff).Portable
  metadata : (Json.obj m.metadata : Value).Portable

/-- The value of a time. -/
def timeValue : Option Int → Value
  | none => .null
  | some t => .int t

theorem toValue_eq (m : ChangeMessage) : m.toValue = .obj [("id", .int m.id), ("entity_id", .str m.entity),
    ("action", .str m.action.word), ("revision_id", .int m.revision), ("time", timeValue m.time),
    ("diff", m.diff.toValue), ("metadata", .obj m.metadata)] := by
  rw [toValue]
  cases m.time <;> rfl

theorem actionWord_word (a : ChangeAction) : actionWord (.str a.word) = .ok a := by
  cases a <;> rfl

theorem nullable_timeValue (t : Option Int) : nullable integer (timeValue t) = .ok t := by
  cases t <;> rfl

theorem anyObject_eq_ok {members : Members} (h : (Json.obj members : Value).Portable) :
    anyObject (.obj members) = .ok members := by
  rw [anyObject, Json.withoutRepeats_of_portable _ h]

/-- **A message is read from its value as it was written.** -/
theorem ofValue_toValue (h : m.Portable) : ChangeMessage.ofValue m.toValue = .ok m := by
  obtain ⟨members, hmembers⟩ : ∃ members : Members, ([("id", .int m.id), ("entity_id", .str m.entity),
    ("action", .str m.action.word), ("revision_id", .int m.revision), ("time", timeValue m.time),
    ("diff", m.diff.toValue), ("metadata", .obj m.metadata)] : Members) = members := ⟨_, rfl⟩
  have hknown : members.map Prod.fst =
      ["id", "entity_id", "action", "revision_id", "time", "diff", "metadata"] := by
    rw [← hmembers]
    rfl
  have hnames : (members.map Prod.fst).Nodup := by
    rw [hknown]
    decide
  have hid : optional "id" 0 integer members = .ok m.id :=
    optional_eq_ok (v := .int m.id) hnames (by simp [← hmembers]) rfl
  have hentity : required "entity_id" text members = .ok m.entity :=
    required_eq_ok (v := .str m.entity) hnames (by simp [← hmembers]) rfl
  have haction : optional "action" .update actionWord members = .ok m.action :=
    optional_eq_ok hnames (by simp [← hmembers]) (actionWord_word m.action)
  have hrevision : optional "revision_id" 0 integer members = .ok m.revision :=
    optional_eq_ok (v := .int m.revision) hnames (by simp [← hmembers]) rfl
  have htime : optional "time" none (nullable integer) members = .ok m.time :=
    optional_eq_ok hnames (by simp [← hmembers]) (nullable_timeValue m.time)
  have hdiff : optional "diff" .empty DiffMessage.ofValue members = .ok m.diff :=
    optional_eq_ok hnames (by simp [← hmembers]) (DiffMessage.ofValue_toValue m.diff h.diff)
  have hmetadata : optional "metadata" [] anyObject members = .ok m.metadata :=
    optional_eq_ok hnames (by simp [← hmembers]) (anyObject_eq_ok h.metadata)
  rw [toValue_eq, hmembers]
  refine object_eq_ok hknown ?_
  rw [hid, hentity, haction, hrevision, htime, hdiff, hmetadata]
  rfl

theorem isScalar_word (a : ChangeAction) : Text.CodeText.isScalar a.word = true := Text.CodeText.isScalar_ofString a.word

theorem portable_toValue (h : m.Portable) : m.toValue.Portable := by
  have htime : (timeValue m.time).Portable := by
    cases ht : m.time with
    | none => trivial
    | some t => exact h.time t ht
  rw [toValue_eq]
  exact ⟨by simp, by decide, h.id, by decide, h.entity, by decide, isScalar_word m.action, by decide, h.revision,
    by decide, htime, by decide, Operation.portable_toValue _ h.diff, by decide, h.metadata, trivial⟩

theorem depth_toValue (m : ChangeMessage) :
    m.toValue.depth = max m.diff.toValue.depth (Json.membersDepth m.metadata + 1) + 1 := by
  have htime : (timeValue m.time).depth = 1 := by cases m.time <;> rfl
  have hpos := Json.depth_pos m.diff.toValue
  rw [toValue_eq]
  simp only [Json.depth, Json.membersDepth, htime]
  omega

/-- **Which changes are written**, and as what. -/
theorem write_eq_ok_iff {s : String} : m.write = .ok s ↔ Text.CodeText.isScalar m.entity = true ∧
    m.diff.toValue.depth < maxWrittenDepth ∧ m.diff.toValue.Encodable ∧
      Json.membersDepth m.metadata < maxWrittenDepth ∧ Json.MembersEncodable m.metadata ∧
        s = Json.compact.write m.toValue := by
  have hcheck : m.check = .ok () ↔ Text.CodeText.isScalar m.entity = true ∧
      (m.diff.toValue.depth ≤ maxWrittenDepth - 1 ∧ m.diff.toValue.Encodable) ∧
        Json.membersDepth m.metadata ≤ maxWrittenDepth - 1 ∧ Json.MembersEncodable m.metadata := by
    rw [check, bind_unit_eq_ok, bind_unit_eq_ok, checkText_eq_ok_iff, checkValue_eq_ok_iff, checkMembers_eq_ok_iff]
  rw [write, Outcome.map_eq_ok]
  constructor
  · rintro ⟨_, h, rfl⟩
    obtain ⟨hentity, ⟨hdepth, hdiff⟩, hnesting, hmetadata⟩ := hcheck.mp h
    exact ⟨hentity, Nat.lt_succ_of_le hdepth, hdiff, Nat.lt_succ_of_le hnesting, hmetadata, rfl⟩
  · rintro ⟨hentity, hdepth, hdiff, hnesting, hmetadata, rfl⟩
    exact ⟨(), hcheck.mpr ⟨hentity, ⟨Nat.le_pred_of_lt hdepth, hdiff⟩, Nat.le_pred_of_lt hnesting, hmetadata⟩, rfl⟩

end ChangeMessage

end PageInvalidation.Wire
