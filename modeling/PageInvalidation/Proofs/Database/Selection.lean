import Mathlib.Data.List.Infix
import PageInvalidation.Proofs.Database.Table
import PageInvalidation.Proofs.Entity
import PageInvalidation.Proofs.Outcome
import PageInvalidation.Proofs.Usage.Filter
import PageInvalidation.Proofs.Usage.Store

/-! # What the lookup of pages selects

The parameters of the lookup say what the filter says: a row is selected if its entity is wanted and its page has a
row of a wanted entity with a key that the filter admits (`holds_usingCondition`). The rows that are fetched are read
back as the usages they were written for (`Usages.ofRow_ofUsage`). -/

namespace PageInvalidation.Database

/-! ### Patterns -/

/-- A pattern that ends with a percent sign and has no other is matched by what starts with the rest of it. -/
theorem like_append_percent : ∀ {pattern text : Text.CodeText}, (∀ c ∈ pattern, c ≠ .scalar '%') →
    (like (pattern ++ [.scalar '%']) text = true ↔ pattern <+: text)
  | [], text, _ => by simp [like]
  | c :: pattern, [], h => by
    have hc : c ≠ .scalar '%' := h c List.mem_cons_self
    simp [like, hc]
  | c :: pattern, d :: text, h => by
    obtain ⟨hc, hrest⟩ := List.forall_mem_cons.mp h
    simp [like, hc, like_append_percent hrest]

/-- The pattern of an aspect is matched by its modified keys. -/
theorem like_code_iff {a : Aspect} {k : AspectKey} :
    like (a.code ++ Text.CodeText.ofString ".%") k.text = true ↔ k.isModified = true ∧ k.aspect = a := by
  have hpattern : a.code ++ Text.CodeText.ofString ".%" = [.scalar a.letter, .scalar '.'] ++ [.scalar '%'] := rfl
  have hletter : a.letter ≠ '%' := by cases a <;> decide
  have hpercent : ∀ c ∈ ([.scalar a.letter, .scalar '.'] : Text.CodeText), c ≠ .scalar '%' := by simp [hletter]
  rw [hpattern, like_append_percent hpercent, AspectKey.text_eq, List.cons_prefix_cons, AspectKey.isModified]
  cases k.modifier with
  | none => simp
  | some m =>
    simp only [List.cons_prefix_cons, List.nil_prefix, and_true, Option.isSome_some, true_and,
      Text.CodePoint.scalar.injEq]
    exact ⟨fun h => (Aspect.letter_injective h).symm, fun h => h ▸ rfl⟩

namespace Usages

variable {texts : List Text.CodeText} {aspects : List Aspect} {k : AspectKey}

theorem mem_sorted {s : Text.CodeText} : s ∈ sorted texts ↔ s ∈ texts := by
  rw [sorted, List.mem_mergeSort, mem_distinct]

theorem textsOf_textList : textsOf (textList texts) = texts := by
  simp [textsOf, textList, List.filterMap_map]

theorem exists_like_iff : (∃ pattern ∈ patterns aspects, like pattern k.text = true) ↔
    k.isModified = true ∧ k.aspect ∈ aspects := by
  have hmem : ∀ pattern, pattern ∈ sorted (aspects.map fun a => a.code ++ Text.CodeText.ofString ".%") ↔
      ∃ a ∈ aspects, a.code ++ Text.CodeText.ofString ".%" = pattern := fun pattern => by
    rw [mem_sorted, List.mem_map]
  have hall : (∃ pattern ∈ sorted (aspects.map fun a => a.code ++ Text.CodeText.ofString ".%"),
      like pattern k.text = true) ↔
      k.isModified = true ∧ k.aspect ∈ aspects := by
    simp only [hmem]
    constructor
    · rintro ⟨pattern, ⟨a, ha, rfl⟩, h⟩
      obtain ⟨hm, rfl⟩ := like_code_iff.mp h
      exact ⟨hm, ha⟩
    · rintro ⟨hm, ha⟩
      exact ⟨_, ⟨k.aspect, ha, rfl⟩, like_code_iff.mpr ⟨hm, rfl⟩⟩
  rw [← hall]
  unfold patterns
  split
  · -- without aspects the one pattern is empty, and no key is
    rename_i hnone
    have hempty : like [] k.text = false := by
      rw [AspectKey.text_eq]
      rfl
    simp [hnone, hempty]
  · rename_i hsome
    rfl

/-! ### Conditions -/

variable {table : List Row} {store : UsageStore} {entities : List EntityId} {filter : UsageFilter} {n : ℤ}
  {u : Usage}

/-- The parameters of the lookup for some entities. -/
def paramsFor (entities : List EntityId) (filter : UsageFilter) : Value :=
  usingParams (sorted (entities.map EntityId.serialization)) filter

theorem texts_entities (filter : UsageFilter) :
    (Slot.named "entities").texts (usingParams texts filter) = texts := by
  unfold usingParams
  cases filter.exact.isEmpty <;> simp [Slot.texts, Json.member?, textsOf_textList]

theorem texts_aspects (h : filter.exact.isEmpty = false) :
    (Slot.named "aspects").texts (usingParams texts filter) = sorted (filter.exact.map AspectKey.text) := by
  simp [usingParams, h, Slot.texts, Json.member?, textsOf_textList]

theorem texts_patterns (h : filter.exact.isEmpty = false) :
    (Slot.named "patterns").texts (usingParams texts filter) = patterns filter.anyModifier := by
  simp [usingParams, h, Slot.texts, Json.member?, textsOf_textList]

theorem holds_entityCondition : entityCondition.holds table (paramsFor entities filter) (.ofUsage n u) = true ↔
    u.entity ∈ entities := by
  simp only [entityCondition, Condition.holds, paramsFor, texts_entities, Column.of, Row.ofUsage, List.contains_iff_mem,
    mem_sorted, List.mem_map]
  constructor
  · rintro ⟨e, he, h⟩
    exact EntityId.serialization_injective h ▸ he
  · exact fun h => ⟨_, h, rfl⟩

theorem holds_keyCondition (h : filter.exact.isEmpty = false) :
    keyCondition.holds table (paramsFor entities filter) (.ofUsage n u) = true ↔ filter.admits u.key = true := by
  have hexact : u.key.text ∈ sorted (filter.exact.map AspectKey.text) ↔ u.key ∈ filter.exact := by
    rw [mem_sorted, List.mem_map]
    exact ⟨fun ⟨k, hk, htext⟩ => AspectKey.text_injective htext ▸ hk, fun hk => ⟨_, hk, rfl⟩⟩
  simp only [keyCondition, Condition.holds, paramsFor, texts_aspects h, texts_patterns h, Column.of, Row.ofUsage,
    Bool.or_eq_true, List.contains_iff_mem, decide_eq_true_eq, List.any_eq_true, exists_like_iff, hexact,
    UsageFilter.admits, Bool.and_eq_true]

end Usages

/-! ### Tables of a store -/

/-- A table holds a row for each usage that a store records, and no other. -/
structure Mirrors (table : List Row) (store : UsageStore) : Prop where
  mem_iff : ∀ n u, Row.ofUsage n u ∈ table ↔ u ∈ (store.usages n).toList
  exists_usage : ∀ r ∈ table, ∃ u, r = Row.ofUsage r.page u

/-- The rows for the usages that a store records. -/
def tableOf (store : UsageStore) : List Row :=
  store.pages.toList.flatMap fun page => page.2.toList.map (Row.ofUsage page.1)

theorem Row.ofUsage_injective {n n' : ℤ} {u u' : Usage} (h : Row.ofUsage n u = Row.ofUsage n' u') :
    n = n' ∧ u = u' := by
  simp only [Row.ofUsage, Row.mk.injEq] at h
  obtain ⟨hn, hentity, hkey⟩ := h
  refine ⟨hn, Usage.eq_of_identity_eq (EntityId.serialization_injective hentity) ?_⟩
  rw [Usage.identity, Usage.identity, hentity, hkey]

theorem Row.ofUsage_mem_map {rows : List (ℤ × Usage)} {n : ℤ} {u : Usage} :
    Row.ofUsage n u ∈ rows.map (fun row => Row.ofUsage row.1 row.2) ↔ (n, u) ∈ rows := by
  rw [List.mem_map]
  constructor
  · rintro ⟨row, hrow, heq⟩
    obtain ⟨rfl, rfl⟩ := Row.ofUsage_injective heq
    exact hrow
  · exact fun hrow => ⟨_, hrow, rfl⟩

/-- **Every store has a table.** -/
theorem mirrors_tableOf (store : UsageStore) : Mirrors (tableOf store) store where
  mem_iff n u := by
    simp only [tableOf, List.mem_flatMap, List.mem_map]
    constructor
    · rintro ⟨page, hpage, v, hv, hrow⟩
      obtain ⟨rfl, rfl⟩ := Row.ofUsage_injective hrow
      rw [UsageStore.usages_of_mem hpage]
      exact hv
    · intro hu
      exact ⟨_, UsageStore.mem_pages_of_mem_usages hu, u, hu, rfl⟩
  exists_usage r hr := by
    obtain ⟨page, -, hr⟩ := List.mem_flatMap.mp hr
    obtain ⟨u, -, rfl⟩ := List.mem_map.mp hr
    exact ⟨u, rfl⟩

/-- **Every table of usages is that of a store**, the one that they were recorded in, if no entity has a number
sign. -/
theorem mirrors_recorded {recorded : List (ℤ × Usage)}
    (h : ∀ row ∈ recorded, .scalar '#' ∉ row.2.entity.serialization) :
    Mirrors (recorded.map fun row => .ofUsage row.1 row.2) (.ofRecorded recorded) where
  mem_iff n u := by
    rw [UsageStore.mem_usages_ofRecorded h, Row.ofUsage_mem_map]
  exists_usage r hr := by
    obtain ⟨row, -, rfl⟩ := List.mem_map.mp hr
    exact ⟨row.2, rfl⟩

namespace Usages

variable {table : List Row} {store : UsageStore} {entities : List EntityId} {filter : UsageFilter} {n : ℤ}
  {u : Usage}

/-- **What the lookup of pages selects**: the rows of wanted entities on the pages where one of them has a key that
the filter admits, or where there is no filter. -/
theorem holds_usingCondition (hm : Mirrors table store) :
    (usingCondition (!filter.exact.isEmpty)).holds table (paramsFor entities filter) (.ofUsage n u) = true ↔
      u.entity ∈ entities ∧ ∃ v ∈ (store.usages n).toList, v.entity ∈ entities ∧
        (filter.exact = [] ∨ filter.admits v.key = true) := by
  have hinner : ∀ v, (if (!filter.exact.isEmpty) = true then Condition.both entityCondition keyCondition
      else entityCondition).holds table (paramsFor entities filter) (.ofUsage n v) = true ↔
        v.entity ∈ entities ∧ (filter.exact = [] ∨ filter.admits v.key = true) := by
    intro v
    cases hexact : filter.exact.isEmpty with
    | true =>
      have hnil : filter.exact = [] := List.isEmpty_iff.mp hexact
      simp [hnil, holds_entityCondition]
    | false =>
      have hne : filter.exact ≠ [] := List.isEmpty_eq_false_iff.mp hexact
      simp [hne, Condition.holds, holds_entityCondition, holds_keyCondition hexact]
  simp only [usingCondition, Condition.holds, Bool.and_eq_true, holds_entityCondition, List.any_eq_true, beq_iff_eq]
  refine and_congr Iff.rfl ⟨?_, ?_⟩
  · rintro ⟨r, hr, hpage, hr'⟩
    obtain ⟨v, hv⟩ := hm.exists_usage r hr
    rw [hpage] at hv
    subst hv
    exact ⟨v, (hm.mem_iff n v).mp hr, (hinner v).mp hr'⟩
  · rintro ⟨v, hv, h⟩
    exact ⟨.ofUsage n v, (hm.mem_iff n v).mpr hv, rfl, (hinner v).mpr h⟩

/-! ### Rows that are fetched -/

/-- **The row of a usage is read back as the usage.** -/
theorem ofRow_ofUsage (n : ℤ) (u : Usage) : ofRow (Row.ofUsage n u).toValue = .ok (n, u) := by
  have hpage : column "eu_page_id" (Row.ofUsage n u).toValue = .ok (.int n) := rfl
  have hentity : column "eu_entity_id" (Row.ofUsage n u).toValue = .ok (.str u.entity.serialization) := rfl
  have hkey : column "eu_aspect" (Row.ofUsage n u).toValue = .ok (.str u.key.text) := rfl
  have hid : EntityId.ofValue (.str u.entity.serialization) = .ok u.entity := EntityId.ofText_eq_ok.mpr rfl
  have husage : Usage.ofKeyValue u.entity (.str u.key.text) = .ok u := u.ofKeyText_text
  rw [ofRow, hpage, hentity, hkey]
  simp only [Except.mapError, bind, Except.bind, hid, husage]
  rfl

theorem mapM_ofRow (rows : List (ℤ × Usage)) :
    (rows.map fun row => (Row.ofUsage row.1 row.2).toValue).mapM ofRow = .ok rows :=
  Outcome.mapM_map_eq_ok fun row _ => ofRow_ofUsage row.1 row.2

theorem exists_usages (hm : Mirrors table store) : ∀ {rows : List Row}, (∀ r ∈ rows, r ∈ table) →
    ∃ usages : List (ℤ × Usage), rows = usages.map fun row => Row.ofUsage row.1 row.2
  | [], _ => ⟨[], rfl⟩
  | r :: rows, h => by
    obtain ⟨hr, hrows⟩ := List.forall_mem_cons.mp h
    obtain ⟨u, hu⟩ := hm.exists_usage r hr
    obtain ⟨usages, rfl⟩ := exists_usages hm hrows
    exact ⟨(r.page, u) :: usages, by rw [List.map_cons, ← hu]⟩

theorem mapM_usedOfRow (names : List Text.CodeText) : (names.map entityRow).mapM usedOfRow = .ok (names.map some) := by
  refine Outcome.mapM_eq_ok.mpr (List.forall₂_map_left_iff.mpr (List.forall₂_map_right_iff.mpr ?_))
  exact List.forall₂_same.mpr fun name _ => rfl

end Usages

end PageInvalidation.Database
