import PageInvalidation.Database.Titles
import PageInvalidation.Database.Usages
import PageInvalidation.Proofs.Effects

/-! # What queries do to the state

A query, tried as often as it may be, talks to the database and writes notes. Whatever calls, answers and notes
lead along, the lookups of usages and titles lead along as well. -/

namespace PageInvalidation.Database

variable {σ α : Type} [Host σ] [Journalled σ] {R : σ → σ → Prop}

/-- Talking to the database and writing notes lead along a relation. -/
structure Talks (R : σ → σ → Prop) : Prop where
  note : ∀ note s, R s (Journalled.record note s)
  call : ∀ c s, R s (Host.call c s).2

variable [IsPreorder σ R]

theorem call_leads (h : Talks R) (c : Call) : (call c : Act σ _).Leads R :=
  (Act.leads_observe (h.call c)).bind fun _ => Act.leads_ofExcept _ _

theorem within_leads (h : Talks R) (enter : Call) (leave : Bool → Call) {x : Act σ α} (hx : x.Leads R) :
    (within enter leave x).Leads R :=
  (call_leads h _).bind fun _ => hx.outcome.bind fun _ => (call_leads h _).bind fun _ => Act.leads_ofExcept _ _

theorem executed_leads (h : Talks R) (text : String) (params : Value) (fetch : Fetch) :
    (executed text params fetch : Act σ _).Leads R := by
  refine (call_leads h _).bind fun _ => ?_
  cases fetch with
  | nothing => exact Act.leads_pure _
  | one => exact call_leads h _
  | all => exact call_leads h _

theorem run_leads (h : Talks R) (text : String) (params : Value) (fetch : Fetch) :
    (run text params fetch : Act σ _).Leads R := by
  unfold run withConnection withTransaction withCursor
  exact within_leads h _ _ (within_leads h _ _ (within_leads h _ _ (executed_leads h text params fetch)))

theorem pause_leads (h : Talks R) (base : Number) (done : Nat) (fault : Fault) :
    (pause base done fault : Act σ _).Leads R :=
  (Act.leads_note h.note _ _ _).bind fun _ => (Act.leads_ofExcept _ _).bind fun _ =>
    (call_leads h _).bind fun _ => Act.leads_pure ()

theorem retryFrom_leads (h : Talks R) (base : Number) {operation : Act σ α} (hop : operation.Leads R) :
    ∀ left done : Nat, (retryFrom base operation left done).Leads R
  | 0, _ => Act.leads_throw _
  | left + 1, done => by
    refine hop.tryCatch fun fault => ?_
    split
    · exact (pause_leads h base done fault).bind fun _ => retryFrom_leads h base hop left (done + 1)
    · exact Act.leads_throw _

theorem query_leads (h : Talks R) (text : String) (params : Value) (fetch : Fetch) :
    (query text params fetch : Act σ _).Leads R :=
  retryFrom_leads h _ (run_leads h text params fetch) _ _

theorem Usages.pagesUsing_leads (h : Talks R) (entities : List EntityId) (keys : List AspectKey) :
    (Usages.pagesUsing entities keys : Act σ _).Leads R := by
  unfold Usages.pagesUsing Usages.pagesUsingFilter
  dsimp only
  split
  · exact Act.leads_pure []
  · exact (Act.leads_ofExcept _ _).bind fun filter => (query_leads h _ _ _).bind fun rows =>
      Act.leads_ofExcept _ _

theorem Titles.pageById_leads (h : Talks R) (pageId : Int) : (Titles.pageById pageId : Act σ _).Leads R := by
  refine (query_leads h _ _ _).bind fun row => ?_
  split
  · exact Act.leads_ofExcept _ _
  · exact Act.leads_throw _

theorem Titles.pageByText_leads (h : Talks R) (nameSpace : Int) (title : Value) :
    (Titles.pageByText nameSpace title : Act σ _).Leads R := by
  refine (Act.leads_ofExcept _ _).bind fun text => (query_leads h _ _ _).bind fun row => ?_
  split
  · exact Act.leads_ofExcept _ _
  · exact Act.leads_pure _

end PageInvalidation.Database
