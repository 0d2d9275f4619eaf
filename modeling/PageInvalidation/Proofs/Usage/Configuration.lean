import PageInvalidation.Proofs.Outcome
import PageInvalidation.Proofs.Usage.Idempotence

/-! # Narrowing after requests

The relevant keys of entities are set by requests, of which some may be refused. The keys of an entity are those of
the last request for it that was not (`Narrowing.get_configured`), so what is reported for a page can be told from
the requests and from the keys that the page uses, entity by entity (`Narrowing.narrowed_exactly`). -/

namespace PageInvalidation.Narrowing

/-! ### Requests -/

/-- A request to set the relevant keys of an entity to those that values write. -/
structure Request where
  entity : EntityId
  keys : List Value

namespace Request

/-- The keys that are asked for, if every value writes one. -/
def read? (r : Request) : Option (List AspectKey) := (r.keys.mapM AspectKey.ofValue).toOption

/-- The configuration after a request, and what comes of the request; one that is refused changes nothing. -/
def run (n : Narrowing) (r : Request) : Narrowing × Except Usage.Error Unit :=
  match n.setValues r.entity r.keys with
  | .ok n => (n, .ok ())
  | .error e => (n, .error e)

/-- A value writes no key. -/
def Malformed (r : Request) : Prop := ∃ v ∈ r.keys, ∀ k : AspectKey, v ≠ .str k.text

end Request

/-- The configuration after requests one after the other. -/
def configured (rs : List Request) : Narrowing := rs.foldl (fun n r => (r.run n).1) empty

/-- The keys of the last request for an entity that is not refused, each once; none without such a request. -/
def lastKeys (e : EntityId) (rs : List Request) : List AspectKey :=
  distinct (((rs.filter fun r => r.entity = e).reverse.findSome? Request.read?).getD [])

variable {n : Narrowing} {r : Request} {rs : List Request} {e : EntityId} {k : AspectKey}
  {used relevant : List AspectKey} {p : PageUsages}

/-! ### One request -/

theorem ofValue_eq_ok {v : Value} : AspectKey.ofValue v = .ok k ↔ v = .str k.text := by
  cases v with
  | str s => rw [AspectKey.ofValue, AspectKey.ofText_eq_ok_iff, Json.str.injEq, eq_comm]
  | _ => simp [AspectKey.ofValue]

theorem Request.Malformed.exists_error (h : r.Malformed) :
    ∃ v ∈ r.keys, ∃ e, AspectKey.ofValue v = .error e := by
  obtain ⟨v, hv, hno⟩ := h
  refine ⟨v, hv, ?_⟩
  cases hread : AspectKey.ofValue v with
  | error e => exact ⟨e, rfl⟩
  | ok k => exact absurd (ofValue_eq_ok.mp hread) (hno k)

/-- **A request with a malformed key is refused** and changes nothing. -/
theorem Request.run_of_malformed (n : Narrowing) (h : r.Malformed) :
    ∃ e, r.run n = (n, .error (.key e)) := by
  obtain ⟨-, -, e, -, hmap⟩ := Outcome.exists_mapM_eq_error h.exists_error
  exact ⟨e, by rw [run, setValues, hmap]; rfl⟩

theorem Request.read?_of_malformed (h : r.Malformed) : r.read? = none := by
  obtain ⟨-, -, e, -, hmap⟩ := Outcome.exists_mapM_eq_error h.exists_error
  rw [read?, hmap]
  rfl

/-- **Any other request succeeds** and sets the keys of its entity. -/
theorem Request.run_of_not_malformed (n : Narrowing) (h : ¬r.Malformed) :
    ∃ keys, r.read? = some keys ∧ r.run n = (n.set r.entity keys, .ok ()) := by
  have hread : ∀ v ∈ r.keys, ∃ k, AspectKey.ofValue v = .ok k := by
    intro v hv
    by_contra hno
    exact h ⟨v, hv, fun k hk => hno ⟨k, ofValue_eq_ok.mpr hk⟩⟩
  obtain ⟨keys, hkeys⟩ := Outcome.exists_mapM_eq_ok hread
  refine ⟨keys, ?_, ?_⟩
  · rw [read?, hkeys]
    rfl
  · rw [run, setValues, hkeys]
    rfl

/-! ### Requests one after the other -/

theorem configured_concat (rs : List Request) (r : Request) :
    configured (rs ++ [r]) = (r.run (configured rs)).1 := List.foldl_concat _ _ _ _

theorem lastKeys_concat (e : EntityId) (rs : List Request) (r : Request) : lastKeys e (rs ++ [r]) =
    match if r.entity = e then r.read? else none with
    | some keys => distinct keys
    | none => lastKeys e rs := by
  unfold lastKeys
  rw [List.filter_append, List.filter_singleton]
  by_cases h : r.entity = e
  · rw [if_pos h, cond_eq_ite, if_pos (decide_eq_true h), List.reverse_concat, List.findSome?_cons]
    cases r.read? <;> rfl
  · rw [if_neg h, cond_eq_ite, if_neg (by simpa using h), List.append_nil]

/-- **The relevant keys after requests.** -/
theorem get_configured (e : EntityId) (rs : List Request) : (configured rs).get e = lastKeys e rs := by
  induction rs using List.reverseRecOn with
  | nil => rfl
  | append_singleton rs r ih =>
    rw [configured_concat, lastKeys_concat]
    by_cases hm : r.Malformed
    · obtain ⟨err, hrun⟩ := r.run_of_malformed (configured rs) hm
      rw [hrun, Request.read?_of_malformed hm, ite_self]
      exact ih
    · obtain ⟨keys, hread, hrun⟩ := r.run_of_not_malformed (configured rs) hm
      rw [hrun, hread, get_set]
      split
      · rfl
      · exact ih

/-! ### Pages -/

/-- A key should be reported for an entity that a page uses under some keys while others are relevant. -/
def Reported (used relevant : List AspectKey) (k : AspectKey) : Prop :=
  if relevant = [] then False
  else if .bare .all ∈ used then k ∈ relevant
  else if .bare .all ∈ relevant then k ∈ used
  else
    k ∈ used ∧ k ∈ relevant ∨
      k ∈ relevant ∧ k.isModified = true ∧ .bare k.aspect ∈ used ∨
      k ∈ used ∧ k.isModified = true ∧ .bare k.aspect ∈ relevant

instance (used relevant : List AspectKey) (k : AspectKey) : Decidable (Reported used relevant k) := by
  unfold Reported
  infer_instance

/-- **The keys kept are those that should be reported.** -/
theorem mem_narrowKeys_iff_reported : k ∈ narrowKeys used relevant ↔ Reported used relevant k := by
  unfold Reported
  split
  · rename_i hnil
    rw [hnil, narrowKeys_nil_relevant]
    exact iff_of_false List.not_mem_nil id
  split
  · rename_i hu
    rw [narrowKeys_of_used_all hu]
  split
  · rename_i hu hr
    rw [narrowKeys_of_relevant_all hu hr]
  · rename_i hu hr
    rw [mem_narrowKeys hu hr, ← mem_and_mem_or_mem_coveredBy, ← mem_and_mem_or_mem_coveredBy, mem_coveredBy,
      mem_coveredBy]
    constructor
    · rintro ((h | h) | (h | h))
      · exact .inl h.symm
      · exact .inr (.inl h)
      · exact .inl h
      · exact .inr (.inr h)
    · rintro (h | h | h)
      · exact .inr (.inl h)
      · exact .inl (.inr h)
      · exact .inr (.inr h)

theorem mem_apply_of_plain (n : Narrowing) (hp : ∀ u ∈ p.toList, .scalar '#' ∉ u.entity.serialization) :
    (⟨e, k⟩ : Usage) ∈ (n.apply p).toList ↔ Reported (p.usages.keysOf e) (n.get e) k := by
  have hinj : Set.InjOn Usage.identity {v | n.Reports p v} := by
    refine Usage.identity_injOn_of_plain fun v hv => ?_
    obtain ⟨w, hw, hentity⟩ := n.exists_mem_of_reports hv
    exact hentity ▸ hp w hw
  rw [n.mem_apply_of_injOn hinj, ← mem_narrowKeys_iff_reported]
  rfl

/-- **What narrowing reports after requests.** The record is for the same page; for each entity it holds the usages
under the keys that should be reported, by the keys that the page uses and those of the entity's last request that
was not refused. So it holds no key that is on neither side, and requests for other entities make no difference. A
request is refused for a malformed key only, and then changes nothing. -/
theorem narrowed_exactly (rs : List Request) (hp : ∀ u ∈ p.toList, .scalar '#' ∉ u.entity.serialization) :
    ((configured rs).apply p).pageId = p.pageId ∧
    (∀ e k, (⟨e, k⟩ : Usage) ∈ ((configured rs).apply p).toList ↔
      Reported (p.usages.keysOf e) (lastKeys e rs) k) ∧
    (∀ u ∈ ((configured rs).apply p).toList,
      u.key ∈ p.usages.keysOf u.entity ∨ u.key ∈ lastKeys u.entity rs) ∧
    (∀ e rs', (rs'.filter fun r => r.entity = e) = rs.filter (fun r => r.entity = e) → ∀ k,
      (⟨e, k⟩ : Usage) ∈ ((configured rs').apply p).toList ↔
        (⟨e, k⟩ : Usage) ∈ ((configured rs).apply p).toList) ∧
    ∀ r : Request, (r.Malformed → ∃ err, r.run (configured rs) = (configured rs, .error (.key err))) ∧
      (¬r.Malformed → (r.run (configured rs)).2 = .ok ()) := by
  have hmem : ∀ rs e k, (⟨e, k⟩ : Usage) ∈ ((configured rs).apply p).toList ↔
      Reported (p.usages.keysOf e) (lastKeys e rs) k := by
    intro rs e k
    rw [mem_apply_of_plain _ hp, get_configured]
  refine ⟨pageId_apply _ p, hmem rs, fun u hu => ?_, fun e rs' hrs k => ?_, fun r => ⟨?_, fun hm => ?_⟩⟩
  · have hkeys := (configured rs).reports_of_mem_apply hu
    rw [Reports, get_configured] at hkeys
    exact mem_or_mem_of_mem_narrowKeys hkeys
  · have hlast : lastKeys e rs' = lastKeys e rs := by rw [lastKeys, hrs, lastKeys]
    rw [hmem rs', hmem rs, hlast]
  · exact r.run_of_malformed (configured rs)
  · obtain ⟨keys, -, hrun⟩ := r.run_of_not_malformed (configured rs) hm
    rw [hrun]

/-- A page that uses everything of one item and all labels of another, after a request that is refused. -/
theorem narrowed_exactly_two_items :
    let item : EntityId := ⟨"Q1", by decide⟩
    let other : EntityId := ⟨"Q2", by decide⟩
    let english : AspectKey := ⟨.label, some "en", by rintro _ ⟨⟩; decide⟩
    let p := PageUsages.ofList 7 [⟨item, .bare .all⟩, ⟨other, .bare .label⟩]
    let rs : List Request := [⟨item, [.str "L.en", .str "O", .str "L.en"]⟩, ⟨item, [.str "S", .str "Z"]⟩,
      ⟨other, [.str "L.en", .str "S"]⟩]
    (∀ u ∈ p.toList, .scalar '#' ∉ u.entity.serialization) ∧
      ((configured rs).apply p).pageId = 7 ∧
      ⟨item, .bare .other⟩ ∈ ((configured rs).apply p).toList ∧
      ⟨item, .bare .siteLink⟩ ∉ ((configured rs).apply p).toList ∧
      ⟨other, english⟩ ∈ ((configured rs).apply p).toList ∧
      ⟨other, .bare .label⟩ ∉ ((configured rs).apply p).toList := by
  intro item other english p rs
  have hp : ∀ u ∈ p.toList, .scalar '#' ∉ u.entity.serialization := by decide
  obtain ⟨hid, hmem, -⟩ := narrowed_exactly rs hp
  exact ⟨hp, hid, (hmem _ _).mpr (by decide), fun h => absurd ((hmem _ _).mp h) (by decide),
    (hmem _ _).mpr (by decide), fun h => absurd ((hmem _ _).mp h) (by decide)⟩

end PageInvalidation.Narrowing
