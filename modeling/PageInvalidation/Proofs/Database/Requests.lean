import Mathlib.Data.List.Forall2
import PageInvalidation.Database.Titles
import PageInvalidation.Database.Usages
import PageInvalidation.Proofs.Database.Attempts
import PageInvalidation.Proofs.Effects

/-! # Connections over any run

Whatever is asked of a database and whatever it does, each request makes the calls of one exchange, or none if it ends
before it asks (`Request.madeBy_serve`). So over any run of requests connections are taken and given back in order
(`serveAll_orderly`): from one request to a run by induction on the requests. -/

namespace PageInvalidation.Database

variable {σ : Type}

/-! ### Requests -/

/-- A request to the database: a lookup of usages or of titles, or a single statement. -/
inductive Request where
  | pagesUsing (entities : List EntityId) (filter : Except Usage.Error UsageFilter)
  | usagesOf (pageId : ℤ)
  | unused (entities : List EntityId)
  | pageById (pageId : ℤ)
  | pageByText (nameSpace : ℤ) (title : Value)
  | run (q : Statement)

namespace Request

/-- The statement that a request comes to, if it does not end before. -/
def statement? : Request → Option Statement
  | pagesUsing entities filter =>
    let texts := Usages.sorted (entities.map EntityId.serialization)
    if texts.isEmpty then none
    else filter.toOption.map fun filter => ⟨Usages.usingQuery filter, Usages.usingParams texts filter, .all⟩
  | usagesOf pageId => some ⟨Usages.pageQuery, .arr [.int pageId], .all⟩
  | unused entities =>
    if entities.isEmpty then none
    else some ⟨Usages.usedQuery, .arr [Usages.textList (entities.map EntityId.serialization)], .all⟩
  | pageById pageId => some ⟨Titles.byIdQuery, .arr [.int pageId], .one⟩
  | pageByText nameSpace title =>
    match Title.normalizeValue title with
    | .error _ => none
    | .ok title => some ⟨Titles.byTextQuery, .arr [.int nameSpace, .str (Titles.toColumn title)], .one⟩
  | run q => some q

/-- How often a request tries its statement at most: once, or as often as a query is tried. -/
def attempts : Request → ℕ
  | run _ => 1
  | _ => 4

/-- Calls are those of an exchange about the statement of a request, or there are none if it has no statement. -/
def MadeBy (r : Request) (t : List Made) : Prop :=
  match r.statement? with
  | none => t = []
  | some q => ∃ n ≤ r.attempts, q.IsExchange n t

variable [Host σ] [Journalled σ] {r : Request}

/-- The state after a request, whether it returns or fails. -/
def serve (s : σ) : Request → σ
  | pagesUsing entities filter => ((Usages.pagesUsingFilter entities filter).run.run s).2
  | usagesOf pageId => ((Usages.usagesOf pageId).run.run s).2
  | unused entities => ((Usages.unused entities).run.run s).2
  | pageById pageId => ((Titles.pageById pageId).run.run s).2
  | pageByText nameSpace title => ((Titles.pageByText nameSpace title).run.run s).2
  | run q => ((Database.run q.text q.params q.fetch).run.run s).2

/-- A request that does nothing but query its statement, and work with the rows. -/
theorem exists_of_query {q : Statement} (hq : r.statement? = some q) (hattempts : r.attempts = 4) {w : Watched σ}
    (h : r.serve w = ((query q.text q.params q.fetch).run.run w).2) :
    ∃ t, (r.serve w).made = w.made ++ t ∧ r.MadeBy t := by
  obtain ⟨t, hmade, ht⟩ := q.fits_query w
  refine ⟨t, by rw [h, hmade], ?_⟩
  rw [MadeBy, hq, hattempts]
  exact ht

theorem exists_of_none (hq : r.statement? = none) {w : Watched σ} (h : r.serve w = w) :
    ∃ t, (r.serve w).made = w.made ++ t ∧ r.MadeBy t := by
  refine ⟨[], by rw [h, List.append_nil], ?_⟩
  rw [MadeBy, hq]

/-- **A request makes the calls of one exchange, or none.** -/
theorem madeBy_serve (r : Request) (w : Watched σ) : ∃ t, (r.serve w).made = w.made ++ t ∧ r.MadeBy t := by
  cases r with
  | pagesUsing entities filter =>
    obtain ⟨texts, htexts⟩ : ∃ texts, Usages.sorted (entities.map EntityId.serialization) = texts := ⟨_, rfl⟩
    by_cases hempty : texts.isEmpty = true
    · refine exists_of_none (by rw [statement?, htexts, if_pos hempty]) ?_
      rw [serve, Usages.pagesUsingFilter, htexts, if_pos hempty]
      rfl
    · cases filter with
      | error e =>
        refine exists_of_none (by rw [statement?, htexts, if_neg hempty]; rfl) ?_
        rw [serve, Usages.pagesUsingFilter, htexts, if_neg hempty]
        rfl
      | ok filter =>
        refine exists_of_query (by rw [statement?, htexts, if_neg hempty]; rfl) rfl ?_
        rw [serve, Usages.pagesUsingFilter, htexts, if_neg hempty]
        exact Act.state_bind (fun rows => Act.leads_ofExcept _ _) w
  | usagesOf pageId =>
    refine exists_of_query rfl rfl ?_
    refine Act.state_bind (fun rows => ?_) w
    exact (Act.leads_ofExcept _ _).bind fun usages => Act.leads_pure _
  | unused entities =>
    by_cases hempty : entities.isEmpty = true
    · refine exists_of_none (by rw [statement?, if_pos hempty]) ?_
      rw [serve, Usages.unused, if_pos hempty]
      rfl
    · refine exists_of_query (by rw [statement?, if_neg hempty]) rfl ?_
      rw [serve, Usages.unused, if_neg hempty]
      refine Act.state_bind (fun rows => ?_) w
      exact (Act.leads_ofExcept _ _).bind fun used => Act.leads_pure _
  | pageById pageId =>
    refine exists_of_query rfl rfl ?_
    refine Act.state_bind (fun row => ?_) w
    split
    · exact Act.leads_ofExcept _ _
    · exact Act.leads_throw _
  | pageByText nameSpace title =>
    cases htitle : Title.normalizeValue title with
    | error e =>
      refine exists_of_none (by rw [statement?, htitle]) ?_
      rw [serve, Titles.pageByText, htitle]
      rfl
    | ok text =>
      refine exists_of_query (by rw [statement?, htitle]) rfl ?_
      rw [serve, Titles.pageByText, htitle, Act.run_ok_bind]
      refine Act.state_bind (fun row => ?_) w
      split
      · exact Act.leads_ofExcept _ _
      · exact Act.leads_pure _
  | run q =>
    obtain ⟨t, hmade, ht⟩ := q.fits_run w
    exact ⟨t, hmade, 1, le_rfl, .last ht⟩

/-- The calls of a request are in order: four attempts at most are made, one more than pauses. -/
theorem MadeBy.orderly {t : List Made} (h : r.MadeBy t) :
    Orderly t ∧ (t = [] ∨ t.countP Made.takes ≤ r.attempts ∧ t.countP Made.takes = t.countP Made.pauses + 1) := by
  unfold MadeBy at h
  split at h
  · exact ⟨h ▸ orderly_nil, .inl h⟩
  · obtain ⟨n, hn, hexchange⟩ := h
    obtain ⟨horderly, htakes, hpauses⟩ := hexchange.orderly
    exact ⟨horderly, .inr ⟨by omega, by omega⟩⟩

end Request

/-! ### Runs -/

/-- The calls that requests make one after the other, each for itself, and the host after all of them. -/
def serveAll [Host σ] [Journalled σ] : List Request → Watched σ → List (List Made) × Watched σ
  | [], w => ([], w)
  | r :: rs, w =>
    let (ts, w') := serveAll rs (r.serve w)
    ((r.serve w).made.drop w.made.length :: ts, w')

/-- **Connections are taken and given back in order over any run** of requests, whichever calls on the database fail.
Each request makes the calls of one exchange about its statement, or none if it has no statement. At its end no
connection is out and none was given back twice; it has made four attempts at most, a single one for a single statement,
and one more than pauses. -/
theorem serveAll_orderly [Host σ] [Journalled σ] (rs : List Request) (w : Watched σ) :
    List.Forall₂ Request.MadeBy rs (serveAll rs w).1 ∧
    (serveAll rs w).2.made = w.made ++ (serveAll rs w).1.flatten ∧ Orderly (serveAll rs w).1.flatten ∧
    List.Forall₂ (fun r t => Orderly t ∧ (t = [] ∨
      t.countP Made.takes ≤ r.attempts ∧ t.countP Made.takes = t.countP Made.pauses + 1)) rs (serveAll rs w).1 := by
  have hserved : List.Forall₂ Request.MadeBy rs (serveAll rs w).1 ∧
      (serveAll rs w).2.made = w.made ++ (serveAll rs w).1.flatten := by
    induction rs generalizing w with
    | nil => exact ⟨.nil, (List.append_nil w.made).symm⟩
    | cons r rs ih =>
      obtain ⟨t, hmade, ht⟩ := r.madeBy_serve w
      obtain ⟨hts, hrest⟩ := ih (r.serve w)
      have hdrop : (r.serve w).made.drop w.made.length = t := by rw [hmade, List.drop_left]
      refine ⟨.cons (hdrop ▸ ht) hts, ?_⟩
      rw [serveAll, List.flatten_cons, hdrop, ← List.append_assoc, ← hmade]
      exact hrest
  obtain ⟨hmadeBy, hmade⟩ := hserved
  generalize (serveAll rs w).1 = ts at *
  have horderly : ∀ t ∈ ts, Orderly t := by
    clear hmade
    induction hmadeBy with
    | nil => exact List.forall_mem_nil _
    | cons h _ ih => exact List.forall_mem_cons.mpr ⟨h.orderly.1, ih⟩
  exact ⟨hmadeBy, hmade, orderly_flatten horderly, hmadeBy.imp fun r t h => h.orderly⟩

end PageInvalidation.Database
