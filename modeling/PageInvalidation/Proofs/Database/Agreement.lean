import PageInvalidation.Proofs.Affected.Merging
import PageInvalidation.Proofs.Database.Retry
import PageInvalidation.Proofs.Database.Selection

/-! # The database and the store in memory agree

Over a database that serves the table of a store, the lookups of usages give what the store gives
(`Usages.refines_store`): equal records of the same pages in the same order, and the same unused entities. The rows
of a page come in any order; they are grouped into one record (`Usages.records_gives`). -/

namespace PageInvalidation.Database

open PageUsages (Holds Proper)

/-! ### Queries that are answered -/

section Answered

variable {σ : Type} [Host σ] {text : String} {params : Value} {s : σ} {rows : Value}

theorem fetched_congr {text' : String} (h : statement text = statement text') (params : Value) (s : σ) :
    fetched text params s = fetched text' params s := by
  unfold fetched opening
  rw [h]

/-- Something done between two calls that succeed comes to what it comes to between them. -/
theorem run_within_of_ok {α : Type} {enter : Call} {leave : Bool → Call} {x : Act σ α} {a : α}
    (henter : (Host.call enter s).1.isOk = true) (hx : (x.run.run (Host.call enter s).2).1 = .ok a)
    (hleave : ∀ s' : σ, (Host.call (leave true) s').1.isOk = true) :
    ((within enter leave x).run.run s).1 = .ok a := by
  rw [run_within]
  rcases hentered : Host.call enter s with ⟨r₁, s₁⟩
  rw [hentered] at henter hx
  obtain ⟨v, rfl⟩ := Outcome.isOk_iff.mp henter
  dsimp only at hx ⊢
  rcases hrun : x.run.run s₁ with ⟨r₂, s₂⟩
  rw [hrun] at hx
  obtain rfl : r₂ = .ok a := hx
  have hok := hleave s₂
  dsimp only [Except.isOk, Except.toBool]
  rcases hleft : Host.call (leave true) s₂ with ⟨r₃, s₃⟩
  rw [hleft] at hok
  obtain ⟨v', rfl⟩ := Outcome.isOk_iff.mp hok
  rfl

theorem run_of_fetched (hs : Serviceable σ) (h : fetched text params s = .ok rows) :
    ((run text params .all : Act σ Value).run.run s).1 = .ok rows := by
  unfold run withConnection withTransaction withCursor
  refine run_within_of_ok (hs.take s) (run_within_of_ok (hs.start _) (run_within_of_ok (hs.cursor _) ?_ hs.close)
    hs.commit) hs.giveBack
  rw [executed, Act.run_bind, run_call]
  have hexecuted := hs.execute (statement text) params
    (Host.call .openCursor (Host.call .beginTransaction (Host.call .takeConnection s).2).2).2
  rcases hcall : Host.call (.execute (statement text) params)
    (Host.call .openCursor (Host.call .beginTransaction (Host.call .takeConnection s).2).2).2 with ⟨r₁, s₁⟩
  rw [hcall] at hexecuted
  obtain ⟨v, rfl⟩ := Outcome.isOk_iff.mp hexecuted
  have hstate : after (opening text params) s = s₁ := congrArg Prod.snd hcall
  dsimp only
  rw [fetched, outcomeAfter, hstate] at h
  rw [Fetch.rows, run_call]
  exact h

theorem query_of_fetched [Journalled σ] (hs : Serviceable σ) (h : fetched text params s = .ok rows) :
    ∃ s', (query text params .all : Act σ Value).run.run s = (.ok rows, s') := by
  refine ⟨((run text params .all : Act σ Value).run.run s).2, ?_⟩
  have hrun : (run text params .all : Act σ Value).run.run s =
      (.ok rows, ((run text params .all : Act σ Value).run.run s).2) := Prod.ext (run_of_fetched hs h) rfl
  exact run_retryFrom_of_last 0 hrun fun h => absurd h Bool.false_ne_true

end Answered

namespace Usages

/-! ### Rows that are grouped -/

section Grouped

variable {rows : List (ℤ × Usage)} {records : Records} {n : ℕ} {u : Usage}

/-- The record of a page with the usage of one row. -/
def single (row : ℤ × Usage) : PageUsages := .ofList row.1.toNat [row.2]

theorem addRow_eq {row : ℤ × Usage} (h : 0 ≤ row.1) (records : Records) :
    addRow records row = .ok (Finder.merge records (single row)) := by
  have hid : PageUsages.pageIdOfInt row.1 = .ok row.1.toNat :=
    PageUsages.pageIdOfInt_eq_ok.mpr (Int.toNat_of_nonneg h).symm
  rw [addRow, hid]
  rfl

theorem foldlM_addRow : ∀ {rows : List (ℤ × Usage)}, (∀ row ∈ rows, 0 ≤ row.1) → ∀ records : Records,
    rows.foldlM addRow records = .ok ((rows.map single).foldl Finder.merge records)
  | [], _, _ => rfl
  | row :: rows, h, records => by
    obtain ⟨hrow, hrows⟩ := List.forall_mem_cons.mp h
    rw [List.foldlM_cons, addRow_eq hrow]
    exact foldlM_addRow hrows _

theorem holds_single (h : ∀ row ∈ rows, 0 ≤ row.1) : Holds (rows.map single) n u ↔ ((n : ℤ), u) ∈ rows := by
  constructor
  · rintro ⟨p, hp, hid, hu⟩
    obtain ⟨row, hrow, rfl⟩ := List.mem_map.mp hp
    have hn : row.1 = n := by
      have hnonneg := h row hrow
      have hid' : row.1.toNat = n := hid
      omega
    rw [List.mem_singleton.mp hu, ← hn]
    exact hrow
  · intro hrow
    exact ⟨_, List.mem_map_of_mem hrow, Int.toNat_natCast n, List.mem_singleton_self u⟩

/-- Rows by ascending page number are grouped into records by ascending page number. -/
theorem pairwise_keys_foldl_merge : ∀ {ps : List PageUsages} {records : Records},
    ps.Pairwise (fun p q => p.pageId ≤ q.pageId) → records.keys.Pairwise (· < ·) →
      (∀ k ∈ records.keys, ∀ p ∈ ps, k ≤ p.pageId) → (ps.foldl Finder.merge records).keys.Pairwise (· < ·)
  | [], _, _, hrecords, _ => hrecords
  | p :: ps, records, hps, hrecords, hle => by
    obtain ⟨hp, hps'⟩ := List.pairwise_cons.mp hps
    rw [List.foldl_cons]
    refine pairwise_keys_foldl_merge hps' ?_ fun k hk q hq => ?_
    · rw [Finder.keys_merge]
      split
      · exact hrecords
      · rename_i hnew
        refine List.pairwise_append.mpr ⟨hrecords, List.pairwise_singleton _ _, fun k hk k' hk' => ?_⟩
        have hk'' : k ≤ p.pageId := hle k hk p List.mem_cons_self
        have hne : k ≠ p.pageId := fun heq => hnew (heq ▸ hk)
        rw [List.mem_singleton.mp hk']
        omega
    · rcases Finder.mem_keys_merge.mp hk with rfl | hk
      · exact hp q hq
      · exact hle k hk q (List.mem_cons_of_mem p hq)

/-- **What grouped rows give**: records by ascending page number that hold what the rows say, if the usages of a page
are told apart by their identities. -/
theorem records_gives {S : ℕ → Set Usage} (hS : ∀ n, Set.InjOn Usage.identity (S n))
    (hrows : ∀ row ∈ rows, 0 ≤ row.1 ∧ row.2 ∈ S row.1.toNat)
    (hsorted : rows.Pairwise fun row row' => row.1 ≤ row'.1) :
    ∃ ps, Usages.records (rows.map fun row => (Row.ofUsage row.1 row.2).toValue) = .ok ps ∧ Proper ps ∧
      (ps.map PageUsages.pageId).Pairwise (· < ·) ∧ ∀ n u, Holds ps n u ↔ ((n : ℤ), u) ∈ rows := by
  have hnonneg : ∀ row ∈ rows, 0 ≤ row.1 := fun row hrow => (hrows row hrow).1
  have hmem : ∀ p ∈ [rows.map single].flatten, ∀ u ∈ p.toList, u ∈ S p.pageId := by
    simp only [List.flatten_singleton, List.forall_mem_map]
    intro row hrow u hu
    rw [List.mem_singleton.mp hu]
    exact (hrows row hrow).2
  have hne : ∀ p ∈ [rows.map single].flatten, p.toList ≠ [] := by
    simp only [List.flatten_singleton, List.forall_mem_map]
    exact fun row _ => List.cons_ne_nil _ _
  refine ⟨Finder.mergeAll [rows.map single], ?_, Finder.proper_mergeAll hS hmem hne, ?_, fun n u => ?_⟩
  · rw [Usages.records, mapM_ofRow]
    simp only [bind, Except.bind, foldlM_addRow hnonneg, Finder.mergeAll, List.flatten_singleton]
    rfl
  · have hpages : (rows.map single).Pairwise fun p q => p.pageId ≤ q.pageId := by
      refine List.pairwise_map.mpr (hsorted.imp fun hle => ?_)
      exact Int.toNat_le_toNat hle
    have hempty : (Keyed.empty : Records).keys.Pairwise (· < ·) := List.Pairwise.nil
    rw [Finder.mergeAll, List.flatten_singleton]
    exact pairwise_keys_foldl_merge hpages hempty (List.forall_mem_nil _)
  · rw [Finder.holds_mergeAll hS hmem, List.flatten_singleton, holds_single hnonneg]

end Grouped

/-! ### What a lookup is answered with -/

variable {σ : Type} [Host σ] {table : List Row} {store : UsageStore} {entities : List EntityId}
  {filter : UsageFilter}

/-- What a database that serves the table of a store answers the lookup of pages with: rows by ascending page number,
for the wanted usages on the pages listed. -/
theorem exists_answer (hs : Serves σ table) (hm : Mirrors table store) (entities : List EntityId)
    (filter : UsageFilter) (s : σ) :
    ∃ usages : List (ℤ × Usage), fetched (rowsStatement (usingCondition (!filter.exact.isEmpty)))
        (paramsFor entities filter) s = .ok (.arr (usages.map fun row => (Row.ofUsage row.1 row.2).toValue)) ∧
      (usages.Pairwise fun row row' => row.1 ≤ row'.1) ∧ ∀ n u, (n, u) ∈ usages ↔
        (u ∈ (store.usages n).toList ∧ u.entity ∈ entities) ∧ ∃ v ∈ (store.usages n).toList, v.entity ∈ entities ∧
          (filter.exact = [] ∨ filter.admits v.key = true) := by
  obtain ⟨rows, hanswer, hperm, hsorted⟩ := hs.rows (!filter.exact.isEmpty) (paramsFor entities filter) s
  have hselected : ∀ r, r ∈ rows ↔ r ∈ table ∧
      (usingCondition (!filter.exact.isEmpty)).holds table (paramsFor entities filter) r = true := fun r => by
    rw [hperm.mem_iff, List.mem_filter]
  obtain ⟨usages, rfl⟩ := exists_usages hm fun r hr => ((hselected r).mp hr).1
  rw [List.map_map] at hanswer
  rw [List.pairwise_map] at hsorted
  refine ⟨usages, hanswer, hsorted, fun n u => ?_⟩
  rw [← Row.ofUsage_mem_map, hselected, hm.mem_iff, holds_usingCondition hm, and_assoc]

theorem exists_entity_iff (hm : Mirrors table store) {e : EntityId} :
    (∃ r ∈ table, r.entity = e.serialization) ↔ store.uses e = true := by
  rw [UsageStore.uses_iff]
  constructor
  · rintro ⟨r, hr, hname⟩
    obtain ⟨u, hu⟩ := hm.exists_usage r hr
    rw [hu] at hr hname
    exact ⟨r.page, u, (hm.mem_iff _ _).mp hr, EntityId.serialization_injective hname⟩
  · rintro ⟨n, u, hu, rfl⟩
    exact ⟨_, (hm.mem_iff n u).mpr hu, rfl⟩

/-- The names that a database that serves the table of a store answers the lookup of entities with. -/
theorem exists_names (hs : Serves σ table) (hm : Mirrors table store) (entities : List EntityId) (s : σ) :
    ∃ names : List Text.CodeText, fetched usedQuery (.arr [textList (entities.map EntityId.serialization)]) s =
        .ok (.arr (names.map entityRow)) ∧
      ∀ e ∈ entities, e.serialization ∈ names ↔ store.uses e = true := by
  obtain ⟨names, hanswer, -, hnames⟩ := hs.names (.arr [textList (entities.map EntityId.serialization)]) s
  rw [← usedQuery_eq] at hanswer
  refine ⟨names, hanswer, fun e he => ?_⟩
  have hasked : ∀ r : Row, r.entity ∈ entities.map EntityId.serialization ↔
      usedCondition.holds table (.arr [textList (entities.map EntityId.serialization)]) r = true := fun r => by
    simp [usedCondition, Condition.holds, Slot.texts, textsOf_textList, Column.of]
  rw [hnames, ← exists_entity_iff hm]
  refine exists_congr fun r => and_congr_right fun _ => ⟨And.right, fun hname => ⟨?_, hname⟩⟩
  rw [← hasked, hname]
  exact List.mem_map_of_mem he

/-! ### Lookups -/

variable [Journalled σ]

theorem sorted_eq_nil {texts : List Text.CodeText} : sorted texts = [] ↔ texts = [] := by
  simp only [List.eq_nil_iff_forall_not_mem, mem_sorted]

theorem pagesUsingFilter_nil : (pagesUsingFilter [] (.ok filter) : Act σ _) = pure [] := by
  have hnone : (sorted (([] : List EntityId).map EntityId.serialization)).isEmpty = true :=
    List.isEmpty_iff.mpr (sorted_eq_nil.mpr rfl)
  exact if_pos hnone

theorem run_pagesUsingFilter (hs : Serviceable σ) {s : σ} {rows : List Value} (hne : entities ≠ [])
    (h : fetched (rowsStatement (usingCondition (!filter.exact.isEmpty))) (paramsFor entities filter) s =
      .ok (.arr rows)) :
    ((pagesUsingFilter entities (.ok filter) : Act σ _).run.run s).1 = records rows := by
  have hasked : (sorted (entities.map EntityId.serialization)).isEmpty = false := by
    rw [List.isEmpty_eq_false_iff, ne_eq, sorted_eq_nil, List.map_eq_nil_iff]
    exact hne
  have hanswer : fetched (usingQuery filter) (paramsFor entities filter) s = .ok (.arr rows) :=
    (fetched_congr (statement_usingQuery filter) _ s).trans h
  obtain ⟨s', hquery⟩ : ∃ s', (query (usingQuery filter) (paramsFor entities filter) .all : Act σ Value).run.run s =
      (.ok (.arr rows), s') := query_of_fetched hs hanswer
  unfold pagesUsingFilter
  rw [if_neg (Bool.eq_false_iff.mp hasked), Act.run_ok_bind, Act.run_bind]
  unfold paramsFor at hquery
  rw [hquery]
  exact Act.gives_ofExcept_id _ s'

/-- **What the lookup of pages gives**: records by ascending page number that hold the wanted usages on the pages
listed. -/
theorem run_pagesUsing (hs : Serves σ table) (hm : Mirrors table store) (hpages : ∀ r ∈ table, 0 ≤ r.page)
    (entities : List EntityId) (keys : List AspectKey) (s : σ) :
    ∃ ps, ((pagesUsing entities keys : Act σ _).run.run s).1 = .ok ps ∧ Proper ps ∧
      (ps.map PageUsages.pageId).Pairwise (· < ·) ∧ ∀ n u, Holds ps n u ↔
        (u ∈ (store.usages n).toList ∧ u.entity ∈ entities) ∧ ∃ v ∈ (store.usages n).toList, v.entity ∈ entities ∧
          (keys = [] ∨ (UsageFilter.ofKeys keys).admits v.key = true) := by
  by_cases hne : entities = []
  · subst hne
    rw [pagesUsing, pagesUsingFilter_nil]
    exact ⟨[], rfl, ⟨List.nodup_nil, nofun⟩, List.Pairwise.nil, by simp [Holds]⟩
  obtain ⟨usages, hanswer, hsorted, hmem⟩ := exists_answer hs hm entities (.ofKeys keys) s
  have hrecorded : ∀ row ∈ usages, 0 ≤ row.1 ∧ row.2 ∈ {u | u ∈ (store.usages row.1.toNat).toList} := by
    intro row hrow
    have hu : row.2 ∈ (store.usages row.1).toList := ((hmem row.1 row.2).mp hrow).1.1
    have hnonneg : 0 ≤ row.1 := hpages _ ((hm.mem_iff row.1 row.2).mpr hu)
    refine ⟨hnonneg, ?_⟩
    rw [Int.toNat_of_nonneg hnonneg]
    exact hu
  obtain ⟨ps, hps, hproper, hascending, hholds⟩ := records_gives (fun n => (store.usages n).injOn) hrecorded hsorted
  refine ⟨ps, ?_, hproper, hascending, fun n u => ?_⟩
  · rw [← hps]
    exact run_pagesUsingFilter hs.toServiceable hne hanswer
  · rw [hholds, hmem, UsageFilter.exact_ofKeys_eq_nil]

/-- **What the lookup of entities gives**: those that the store records no use of. -/
theorem run_unused (hs : Serves σ table) (hm : Mirrors table store) (entities : List EntityId) (s : σ) :
    ((unused entities : Act σ _).run.run s).1 = .ok (store.unused entities) := by
  cases hentities : entities.isEmpty with
  | true =>
    rw [List.isEmpty_iff.mp hentities]
    rfl
  | false =>
    obtain ⟨names, hanswer, hused⟩ := exists_names hs hm entities s
    obtain ⟨s', hquery⟩ : ∃ s', (query usedQuery (.arr [textList (entities.map EntityId.serialization)]) .all :
        Act σ Value).run.run s = (.ok (.arr (names.map entityRow)), s') := query_of_fetched hs.toServiceable hanswer
    have hfilter : (entities.filter fun e => some e.serialization ∉ names.map some) = store.unused entities := by
      refine List.filter_congr fun e he => ?_
      have hmem : some e.serialization ∈ names.map some ↔ e.serialization ∈ names := by simp
      simp [hmem, hused e he]
    unfold unused
    rw [if_neg (Bool.eq_false_iff.mp hentities), Act.run_bind, hquery]
    simp only [rowsOf, mapM_usedOfRow, Act.run_ok_bind]
    exact congrArg Except.ok hfilter

/-- **The database and the store in memory agree**: they give equal records of the same pages in the same order, and
the same unused entities. -/
theorem refines_store (hs : Serves σ table) (hm : Mirrors table store) (hpages : ∀ r ∈ table, 0 ≤ r.page)
    (entities : List EntityId) (keys : List AspectKey) (s : σ) :
    (∃ ps qs, ((pagesUsing entities keys : Act σ _).run.run s).1 = .ok ps ∧ store.pagesUsing entities keys = .ok qs ∧
      ps.map PageUsages.pageId = qs.map PageUsages.pageId ∧ List.Forall₂ (fun p q => p.same q = true) ps qs) ∧
    ((unused entities : Act σ _).run.run s).1 = .ok (store.unused entities) := by
  refine ⟨?_, run_unused hs hm entities s⟩
  obtain ⟨ps, hps, hproper, hascending, hholds⟩ := run_pagesUsing hs hm hpages entities keys s
  have hused : ∀ m, ∀ u ∈ (store.usages m).toList, 0 ≤ m := fun m u hu => hpages _ ((hm.mem_iff m u).mpr hu)
  obtain ⟨qs, hqs⟩ : ∃ qs, store.pagesUsing entities keys = .ok qs := UsageStore.exists_pagesUsing_of_used hused
  have hproper' : Proper qs := UsageStore.proper_pagesUsing hqs
  have hsame : ∀ n u, Holds ps n u ↔ Holds qs n u := fun n u => by
    rw [hholds, UsageStore.holds_pagesUsing hqs]
  have hids : ps.map PageUsages.pageId = qs.map PageUsages.pageId :=
    PageUsages.map_pageId_eq hproper hproper' hascending (UsageStore.pairwise_pageId_pagesUsing hqs) hsame
  exact ⟨ps, qs, hps, hqs, hids, PageUsages.forall₂_same hproper hproper' hids hsame⟩

/-- Of three pages two have a label of the entities, one of any language and one of the one asked for. -/
theorem refines_store_label :
    let q1 : EntityId := ⟨"Q1", by decide⟩
    let q2 : EntityId := ⟨"Q2", by decide⟩
    let q3 : EntityId := ⟨"Q3", by decide⟩
    let english : AspectKey := ⟨.label, some "en", by rintro _ ⟨⟩; decide⟩
    let store := ((UsageStore.empty.add 3 [⟨q1, .bare .label⟩, ⟨q2, .bare .all⟩]).add 2 [⟨q2, .bare .title⟩]).add 1
      [⟨q1, english⟩]
    let s : TableHost (tableOf store) := ⟨("", .null), []⟩
    (∃ ps, ((pagesUsing [q1, q2, q3] [english] : Act (TableHost (tableOf store)) _).run.run s).1 = .ok ps ∧
      1 ∈ ps.map PageUsages.pageId ∧ 2 ∉ ps.map PageUsages.pageId ∧ 3 ∈ ps.map PageUsages.pageId) ∧
    ((unused [q1, q2, q3] : Act (TableHost (tableOf store)) _).run.run s).1 = .ok [q3] := by
  intro q1 q2 q3 english store s
  have hpages : ∀ r ∈ tableOf store, 0 ≤ r.page := by decide
  have hunused : store.unused [q1, q2, q3] = [q3] := by decide
  obtain ⟨⟨ps, qs, hps, hqs, hids, -⟩, hrun⟩ :=
    refines_store (TableHost.serves _) (mirrors_tableOf store) hpages [q1, q2, q3] [english] s
  have hlisted : ∀ n : ℕ, n ∈ ps.map PageUsages.pageId ↔
      UsageStore.listed [english] (UsageStore.wanted [q1, q2, q3] (n, store.usages n)) = true := fun n => by
    rw [hids, UsageStore.mem_pageId_pagesUsing hqs]
  rw [hunused] at hrun
  exact ⟨⟨ps, hps, (hlisted 1).mpr (by decide), fun h => absurd ((hlisted 2).mp h) (by decide),
    (hlisted 3).mpr (by decide)⟩, hrun⟩

end Usages

end PageInvalidation.Database
