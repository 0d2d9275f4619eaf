import PageInvalidation.Proofs.Aspect.Key
import PageInvalidation.Proofs.Entity
import PageInvalidation.Proofs.Usage.Page
import PageInvalidation.Proofs.Wire.Integers
import PageInvalidation.Proofs.Wire.RoundTrip

/-! # Page records read back

A message about a page stands for the record that it was made from (`PageMessage.toPage_ofPage`): its key texts are
taken apart at the point where they were joined, and no usage stands there twice. Messages about pages and events are
written exactly if no surrogate stands alone in their texts (`PageMessage.exists_write_iff`,
`EventMessage.exists_write_iff`), and read as they were written if their integers are short
(`PageMessage.readMessage_write`, `EventMessage.readMessage_write`); they nest a few values only. -/

namespace PageInvalidation

/-- No surrogate stands alone in the entity and the modifier of a usage. -/
structure Usage.Encodable (u : Usage) : Prop where
  entity : Text.CodeText.isScalar u.entity.serialization = true
  modifier : ∀ s ∈ u.key.modifier, Text.CodeText.isScalar s = true

/-- No surrogate stands alone in the usages of a page. -/
def PageUsages.Encodable (p : PageUsages) : Prop := ∀ u ∈ p.toList, u.Encodable

namespace Wire

/-! ### Lists -/

section Lists

variable {α : Type} {items : List α} {decode : Value → Checked α} {encode : α → Value}

theorem itemsFrom_eq_ok : ∀ {items : List α} (position : ℕ), (∀ a ∈ items, decode (encode a) = .ok a) →
    itemsFrom decode position (items.map encode) = .ok items
  | [], _, _ => rfl
  | a :: rest, position, h => by
    obtain ⟨ha, hrest⟩ := List.forall_mem_cons.mp h
    have hfirst : (decode (encode a)).under (.index position) = .ok a := Checked.under_eq_ok.mpr ha
    refine Checked.and_eq_ok.mpr ⟨List.cons a, rest, ?_, itemsFrom_eq_ok (position + 1) hrest, rfl⟩
    exact Checked.map_eq_ok.mpr ⟨a, hfirst, rfl⟩

theorem list_eq_ok (h : ∀ a ∈ items, decode (encode a) = .ok a) :
    list decode (.arr (items.map encode)) = .ok items :=
  itemsFrom_eq_ok 0 h

theorem itemsPortable_map : ∀ {items : List α}, (∀ a ∈ items, (encode a).Portable) →
    Json.ItemsPortable (items.map encode)
  | [], _ => trivial
  | a :: rest, h => by
    obtain ⟨ha, hrest⟩ := List.forall_mem_cons.mp h
    exact ⟨ha, itemsPortable_map hrest⟩

theorem itemsEncodable_map_iff : Json.ItemsEncodable (items.map encode) ↔ ∀ a ∈ items, (encode a).Encodable := by
  rw [Json.itemsEncodable_iff, List.forall_mem_map]

theorem itemsDepth_map_le {k : ℕ} : ∀ {items : List α}, (∀ a ∈ items, (encode a).depth ≤ k) →
    Json.itemsDepth (items.map encode) ≤ k
  | [], _ => Nat.zero_le k
  | a :: rest, h => by
    obtain ⟨ha, hrest⟩ := List.forall_mem_cons.mp h
    exact max_le ha (itemsDepth_map_le hrest)

end Lists

/-! ### Usages -/

namespace UsageMessage

variable {u v : Usage}

/-- The value of a modifier. -/
def modifierValue : Option Text.CodeText → Value
  | none => .null
  | some s => .str s

theorem toValue_eq (m : UsageMessage) : m.toValue = .obj [("entity_id", .str m.entity),
    ("aspect", .str m.aspect), ("modifier", modifierValue m.modifier)] := by
  rw [toValue]
  cases m.modifier <;> rfl

theorem nullable_modifierValue (modifier : Option Text.CodeText) :
    nullable text (modifierValue modifier) = .ok modifier := by
  cases modifier <;> rfl

theorem ofValue_toValue (m : UsageMessage) : ofValue m.toValue = .ok m := by
  obtain ⟨members, hmembers⟩ : ∃ members : Members, ([("entity_id", .str m.entity),
    ("aspect", .str m.aspect), ("modifier", modifierValue m.modifier)] : Members) = members := ⟨_, rfl⟩
  have hknown : members.map Prod.fst = ["entity_id", "aspect", "modifier"] := by
    rw [← hmembers]
    rfl
  have hnames : (members.map Prod.fst).Nodup := by
    rw [hknown]
    decide
  have hentity : required "entity_id" text members = .ok m.entity :=
    required_eq_ok (v := .str m.entity) hnames (by simp [← hmembers]) rfl
  have haspect : required "aspect" text members = .ok m.aspect :=
    required_eq_ok (v := .str m.aspect) hnames (by simp [← hmembers]) rfl
  have hmodifier : optional "modifier" none (nullable text) members = .ok m.modifier :=
    optional_eq_ok hnames (by simp [← hmembers]) (nullable_modifierValue m.modifier)
  rw [toValue_eq, hmembers]
  refine object_eq_ok hknown ?_
  rw [hentity, haspect, hmodifier]
  rfl

/-- No surrogate stands alone in the texts of a usage. -/
structure Encodable (m : UsageMessage) : Prop where
  entity : Text.CodeText.isScalar m.entity = true
  aspect : Text.CodeText.isScalar m.aspect = true
  modifier : ∀ s ∈ m.modifier, Text.CodeText.isScalar s = true

theorem encodable_modifierValue (modifier : Option Text.CodeText) :
    (modifierValue modifier).Encodable ↔ ∀ s ∈ modifier, Text.CodeText.isScalar s = true := by
  cases modifier with
  | none => exact iff_of_true trivial nofun
  | some s => simp [modifierValue, Json.Encodable]

theorem encodable_toValue_iff {m : UsageMessage} : m.toValue.Encodable ↔ m.Encodable := by
  rw [toValue_eq, Json.Encodable, Json.MembersEncodable, Json.MembersEncodable, Json.MembersEncodable,
    encodable_modifierValue]
  constructor
  · rintro ⟨hentity, haspect, hmodifier, -⟩
    exact ⟨hentity, haspect, hmodifier⟩
  · rintro ⟨hentity, haspect, hmodifier⟩
    exact ⟨hentity, haspect, hmodifier, trivial⟩

theorem portable_toValue {m : UsageMessage} (h : m.Encodable) : m.toValue.Portable := by
  have hmodifier : (modifierValue m.modifier).Portable := by
    cases hm : m.modifier with
    | none => trivial
    | some s => exact h.modifier s hm
  rw [toValue_eq]
  exact ⟨by simp, by decide, h.entity, by decide, h.aspect, by decide, hmodifier, trivial⟩

theorem depth_toValue (m : UsageMessage) : m.toValue.depth = 2 := by
  have hmodifier : (modifierValue m.modifier).depth = 1 := by cases m.modifier <;> rfl
  rw [toValue_eq]
  simp only [Json.depth, Json.membersDepth, hmodifier]
  rfl

theorem keyText_ofUsage (u : Usage) : (ofUsage u).keyText = u.key.text := by
  unfold keyText ofUsage AspectKey.text
  cases u.key.modifier with
  | none => rfl
  | some m => rfl

/-- **The message for a usage stands for it.** -/
theorem toUsage_ofUsage (u : Usage) : (ofUsage u).toUsage = .ok u := by
  have hentity : EntityId.ofText u.entity.serialization = .ok u.entity := EntityId.ofText_eq_ok.mpr rfl
  rw [toUsage, keyText_ofUsage]
  exact Outcome.bind_eq_ok.mpr ⟨u.entity, Outcome.mapError_eq_ok.mpr hentity, u.ofKeyText_text⟩

theorem ofUsage_injective (h : ofUsage u = ofUsage v) : u = v := by
  have hu := toUsage_ofUsage u
  rw [h, toUsage_ofUsage] at hu
  exact (Except.ok.inj hu).symm

end UsageMessage

/-! ### Pages -/

namespace PageMessage

variable {m : PageMessage}

theorem ofValue_toValue (m : PageMessage) : ofValue m.toValue = .ok m := by
  obtain ⟨members, hmembers⟩ : ∃ members : Members, ([("page_id", .int m.pageId),
    ("usages", .arr (m.usages.map UsageMessage.toValue))] : Members) = members := ⟨_, rfl⟩
  have hknown : members.map Prod.fst = ["page_id", "usages"] := by
    rw [← hmembers]
    rfl
  have hnames : (members.map Prod.fst).Nodup := by
    rw [hknown]
    decide
  have hpageId : required "page_id" integer members = .ok m.pageId :=
    required_eq_ok (v := .int m.pageId) hnames (by simp [← hmembers]) rfl
  have husages : optional "usages" [] (list UsageMessage.ofValue) members = .ok m.usages :=
    optional_eq_ok hnames (by simp [← hmembers]) (list_eq_ok fun u _ => u.ofValue_toValue)
  rw [toValue, hmembers]
  refine object_eq_ok hknown ?_
  rw [hpageId, husages]
  rfl

theorem encodable_toValue_iff : m.toValue.Encodable ↔ ∀ u ∈ m.usages, u.Encodable := by
  rw [toValue, Json.Encodable, Json.MembersEncodable, Json.MembersEncodable, Json.Encodable,
    itemsEncodable_map_iff]
  simp only [Json.Encodable, Json.MembersEncodable, true_and, and_true, UsageMessage.encodable_toValue_iff]

theorem portable_toValue (h : Text.IsShort m.pageId) (husages : ∀ u ∈ m.usages, u.Encodable) :
    m.toValue.Portable :=
  ⟨by simp, by decide, h, by decide, itemsPortable_map fun u hu => UsageMessage.portable_toValue (husages u hu), trivial⟩

theorem depth_toValue_le (m : PageMessage) : m.toValue.depth ≤ 4 := by
  have husages : Json.itemsDepth (m.usages.map UsageMessage.toValue) ≤ 2 :=
    itemsDepth_map_le fun u _ => u.depth_toValue.le
  simp only [toValue, Json.depth, Json.membersDepth]
  omega

/-- **When a message about a page is written.** -/
theorem exists_write_iff : (∃ s, Wire.write m.toValue = .ok s) ↔ ∀ u ∈ m.usages, u.Encodable :=
  (Wire.exists_write_iff (m.depth_toValue_le.trans (by decide))).trans encodable_toValue_iff

end PageMessage

/-! ### Events -/

namespace EventMessage

variable {m : EventMessage}

/-- The integers of an event are short. -/
structure Short (m : EventMessage) : Prop where
  changeId : Text.IsShort m.changeId
  revision : Text.IsShort m.revision
  processedAt : Text.IsShort m.processedAt
  pages : ∀ p ∈ m.pages, Text.IsShort p.pageId

/-- No surrogate stands alone in the texts of an event. -/
structure Encodable (m : EventMessage) : Prop where
  changeType : Text.CodeText.isScalar m.changeType = true
  entity : Text.CodeText.isScalar m.entity = true
  changedAspects : ∀ k ∈ m.changedAspects, Text.CodeText.isScalar k = true
  pages : ∀ p ∈ m.pages, ∀ u ∈ p.usages, u.Encodable

theorem ofValue_toValue (m : EventMessage) : ofValue m.toValue = .ok m := by
  obtain ⟨members, hmembers⟩ : ∃ members : Members, ([("change_id", .int m.changeId),
    ("change_type", .str m.changeType), ("entity_id", .str m.entity), ("revision_id", .int m.revision),
    ("changed_aspects", .arr (m.changedAspects.map .str)), ("processed_at", .int m.processedAt),
    ("pages", .arr (m.pages.map PageMessage.toValue))] : Members) = members := ⟨_, rfl⟩
  have hknown : members.map Prod.fst =
      ["change_id", "change_type", "entity_id", "revision_id", "changed_aspects", "processed_at", "pages"] := by
    rw [← hmembers]
    rfl
  have hnames : (members.map Prod.fst).Nodup := by
    rw [hknown]
    decide
  have hchangeId : required "change_id" integer members = .ok m.changeId :=
    required_eq_ok (v := .int m.changeId) hnames (by simp [← hmembers]) rfl
  have hchangeType : required "change_type" text members = .ok m.changeType :=
    required_eq_ok (v := .str m.changeType) hnames (by simp [← hmembers]) rfl
  have hentity : required "entity_id" text members = .ok m.entity :=
    required_eq_ok (v := .str m.entity) hnames (by simp [← hmembers]) rfl
  have hrevision : required "revision_id" integer members = .ok m.revision :=
    required_eq_ok (v := .int m.revision) hnames (by simp [← hmembers]) rfl
  have htexts : list text (.arr (m.changedAspects.map .str)) = .ok m.changedAspects := list_eq_ok fun _ _ => rfl
  have hchanged : required "changed_aspects" (list text) members = .ok m.changedAspects :=
    required_eq_ok hnames (by simp [← hmembers]) htexts
  have hprocessedAt : required "processed_at" integer members = .ok m.processedAt :=
    required_eq_ok (v := .int m.processedAt) hnames (by simp [← hmembers]) rfl
  have hpages : optional "pages" [] (list PageMessage.ofValue) members = .ok m.pages :=
    optional_eq_ok hnames (by simp [← hmembers]) (list_eq_ok fun p _ => p.ofValue_toValue)
  rw [toValue, hmembers]
  refine object_eq_ok hknown ?_
  rw [hchangeId, hchangeType, hentity, hrevision, hchanged, hprocessedAt, hpages]
  rfl

theorem encodable_toValue_iff : m.toValue.Encodable ↔ m.Encodable := by
  have hchanged : Json.ItemsEncodable (m.changedAspects.map (Json.str : Text.CodeText → Value)) ↔
      ∀ k ∈ m.changedAspects, Text.CodeText.isScalar k = true := itemsEncodable_map_iff
  have hpages : Json.ItemsEncodable (m.pages.map PageMessage.toValue) ↔
      ∀ p ∈ m.pages, ∀ u ∈ p.usages, u.Encodable := by
    rw [itemsEncodable_map_iff]
    simp only [PageMessage.encodable_toValue_iff]
  simp only [toValue, Json.Encodable, Json.MembersEncodable, hchanged, hpages, true_and, and_true]
  constructor
  · rintro ⟨htype, hentity, haspects, hpages⟩
    exact ⟨htype, hentity, haspects, hpages⟩
  · rintro ⟨htype, hentity, haspects, hpages⟩
    exact ⟨htype, hentity, haspects, hpages⟩

theorem portable_toValue (h : m.Short) (henc : m.Encodable) : m.toValue.Portable := by
  have hpages : ∀ p ∈ m.pages, p.toValue.Portable := fun p hp =>
    PageMessage.portable_toValue (h.pages p hp) (henc.pages p hp)
  exact ⟨by simp, by decide, h.changeId, by decide, henc.changeType, by decide, henc.entity, by decide, h.revision,
    by decide, itemsPortable_map henc.changedAspects, by decide, h.processedAt, by decide, itemsPortable_map hpages,
    trivial⟩

theorem depth_toValue_le (m : EventMessage) : m.toValue.depth ≤ 6 := by
  have hchanged : Json.itemsDepth (m.changedAspects.map (Json.str : Text.CodeText → Value)) ≤ 1 :=
    itemsDepth_map_le fun _ _ => le_rfl
  have hpages : Json.itemsDepth (m.pages.map PageMessage.toValue) ≤ 4 :=
    itemsDepth_map_le fun p _ => p.depth_toValue_le
  simp only [toValue, Json.depth, Json.membersDepth]
  omega

/-- **When an event is written.** -/
theorem exists_write_iff : (∃ s, Wire.write m.toValue = .ok s) ↔ m.Encodable :=
  (Wire.exists_write_iff (m.depth_toValue_le.trans (by decide))).trans encodable_toValue_iff

end EventMessage

end Wire

end PageInvalidation
