import PageInvalidation.Affected.Pages
import PageInvalidation.Proofs.Effects

/-! # What looking for affected pages does to the state

Beside what its sources do, a finder only writes notes. Sources in memory do nothing at all. -/

namespace PageInvalidation

variable {σ : Type} {R : σ → σ → Prop}

/-- Every lookup in the sources leads along a relation. -/
structure Sources.Lead (R : σ → σ → Prop) (sources : Sources σ) : Prop where
  pagesUsing : ∀ entities keys, (sources.pagesUsing entities keys).Leads R
  pageById : ∀ pageId, (sources.pageById pageId).Leads R
  pageByText : ∀ title, (sources.pageByText title).Leads R

variable [IsPreorder σ R]

theorem Sources.lead_ofMemory (store : UsageStore) (titles : TitleIndex) :
    (Sources.ofMemory store titles).Lead R where
  pagesUsing _ _ := Act.leads_ofExcept _ _
  pageById _ := Act.leads_ofExcept _ _
  pageByText _ := Act.leads_ofExcept _ _

variable [Journalled σ] {sources : Sources σ}

namespace LinkedTitles

theorem pageNamed_leads (hnote : ∀ note s, R s (Journalled.record note s)) (hs : sources.Lead R)
    (name : Value) : (pageNamed sources name).Leads R := by
  refine ((hs.pageByText name).map some).tryCatch fun fault => ?_
  cases fault with
  | title e =>
    dsimp only
    split
    · exact (Act.leads_note hnote _ _ _).bind fun _ => Act.leads_pure none
    · exact Act.leads_throw _
  | _ => exact Act.leads_throw _

theorem pagesNamed_leads (hnote : ∀ note s, R s (Journalled.record note s)) (hs : sources.Lead R) :
    ∀ names : List Value, (pagesNamed sources names).Leads R := by
  intro names
  induction names with
  | nil => exact Act.leads_pure []
  | cons name rest ih =>
    exact (pageNamed_leads hnote hs name).bind fun _ => ih.bind fun _ => Act.leads_pure _

theorem addVirtual_leads (hnote : ∀ note s, R s (Journalled.record note s)) (usages : List Usage)
    (records : Records) (page : PageRef) : (addVirtual usages records page : Act σ _).Leads R := by
  unfold addVirtual
  split
  · exact (Act.leads_note hnote _ _ _).bind fun _ => Act.leads_pure records
  · exact (Act.leads_ofExcept _ _).bind fun n => Act.leads_pure _

theorem ofChange_leads (hnote : ∀ note s, R s (Journalled.record note s)) (hs : sources.Lead R)
    (site : Text.CodeText) (c : EntityChange) (keys : List Value) : (ofChange sources site c keys).Leads R := by
  refine (Act.leads_ofExcept _ _).bind fun links => (Act.leads_ofExcept _ _).bind fun names => ?_
  refine (pagesNamed_leads hnote hs names).bind fun pages => ?_
  exact (Act.leads_ofExcept _ _).bind fun usages =>
    Act.leads_foldlM (addVirtual_leads hnote usages) pages Keyed.empty

end LinkedTitles

namespace Finder

variable {f : Finder}

theorem candidates_leads (hnote : ∀ note s, R s (Journalled.record note s)) (hs : sources.Lead R)
    (c : EntityChange) : (f.candidates sources c).Leads R := by
  refine (Act.leads_ofExcept _ _).bind fun touched => (hs.pagesUsing _ _).bind fun used => ?_
  dsimp only
  split
  · exact (LinkedTitles.ofChange_leads hnote hs _ c _).bind fun _ => Act.leads_pure _
  · exact Act.leads_pure _

theorem keeps_leads (hnote : ∀ note s, R s (Journalled.record note s)) (hs : sources.Lead R)
    (p : PageUsages) : (f.keeps sources p).Leads R := by
  refine Act.Leads.bind (((hs.pageById _).map some).tryCatch fun fault => ?_) fun found => ?_
  · split
    · exact Act.leads_pure none
    · exact Act.leads_throw _
  · cases found with
    | none => exact (Act.leads_noteIf hnote _ _ _).bind fun _ => Act.leads_pure false
    | some page =>
      dsimp only
      split
      · exact (Act.leads_noteIf hnote _ _ _).bind fun _ => Act.leads_pure false
      · exact Act.leads_pure true

theorem kept_leads (hnote : ∀ note s, R s (Journalled.record note s)) (hs : sources.Lead R) :
    ∀ ps : List PageUsages, (f.kept sources ps).Leads R
  | [] => Act.leads_pure []
  | p :: ps => (keeps_leads hnote hs p).bind fun _ =>
    (kept_leads hnote hs ps).bind fun _ => Act.leads_pure _

theorem affectedBy_leads (hnote : ∀ note s, R s (Journalled.record note s)) (hs : sources.Lead R)
    (c : EntityChange) : (f.affectedBy sources c).Leads R :=
  (candidates_leads hnote hs c).bind fun ps => (kept_leads hnote hs ps).bind fun _ => Act.leads_pure _

end Finder

end PageInvalidation
