import PageInvalidation.Dispatch.Handler
import PageInvalidation.Proofs.Affected.Effects
import PageInvalidation.Proofs.Affected.Pages

/-! # What handling a change comes to

With usages and titles in memory the handler gives one result whatever is in the journal; beside what its
sources do, it only writes notes. -/

namespace PageInvalidation.Dispatch.Handler

variable {σ : Type} [Journalled σ] {R : σ → σ → Prop} {f : Finder} {sources : Sources σ}
  {store : UsageStore} {titles : TitleIndex} {m : Wire.ChangeMessage} {now : Instant}
  {e : Wire.EventMessage}

theorem handle_leads [IsPreorder σ R] (hnote : ∀ note s, R s (Journalled.record note s))
    (hs : sources.Lead R) (m : Wire.ChangeMessage) (now : Instant) :
    (handle f sources m now).Leads R := by
  refine (Act.leads_ofExcept _ _).bind fun c => (Finder.affectedBy_leads hnote hs c).bind fun pages => ?_
  split
  · exact (Act.leads_noteIf hnote _ _ _).bind fun _ => Act.leads_pure none
  · exact (Act.leads_ofExcept _ _).bind fun aspects =>
      (Act.leads_noteIf hnote _ _ _).bind fun _ => Act.leads_pure _

/-- What handling a change message comes to, with usages and titles in memory. -/
def handleIn (f : Finder) (store : UsageStore) (titles : TitleIndex) (m : Wire.ChangeMessage)
    (now : Instant) : Except Fault (Option Wire.EventMessage) := do
  let c ← m.toChange
  let pages ← f.affectedIn store titles c
  if pages.isEmpty then return none
  else return some (event m c (← f.changedAspects c) now pages)

theorem handle_gives (m : Wire.ChangeMessage) (now : Instant) :
    (handle f (Sources.ofMemory store titles) m now : Act σ _).Gives (handleIn f store titles m now) := by
  refine (Act.gives_ofExcept_id _).bind fun c _ => Finder.affectedBy_gives.bind fun pages _ => ?_
  split
  · exact (Act.gives_noteIf _ _ _).bind fun _ _ => Act.gives_pure none
  · exact (Act.gives_ofExcept_id _).bind fun aspects _ =>
      (Act.gives_noteIf _ _ _).bind (g := fun _ => .ok _) fun _ _ => Act.gives_pure _

theorem handleIn_eq_some_iff : handleIn f store titles m now = .ok (some e) ↔
    ∃ c pages aspects, m.toChange = .ok c ∧ f.affectedIn store titles c = .ok pages ∧ pages ≠ [] ∧
      f.changedAspects c = .ok aspects ∧ e = event m c aspects now pages := by
  unfold handleIn
  rw [Outcome.bind_eq_ok]
  constructor
  · rintro ⟨c, hc, h⟩
    obtain ⟨pages, hpages, h⟩ := Outcome.bind_eq_ok.mp h
    split at h
    · cases h
    · rename_i hne
      obtain ⟨aspects, haspects, h⟩ := Outcome.bind_eq_ok.mp h
      cases h
      exact ⟨c, pages, aspects, hc, hpages, fun h => hne (h ▸ rfl), haspects, rfl⟩
  · rintro ⟨c, pages, aspects, hc, hpages, hne, haspects, rfl⟩
    refine ⟨c, hc, ?_⟩
    rw [hpages]
    simp only [bind, Except.bind]
    rw [if_neg (by simpa using hne), haspects]
    rfl

end PageInvalidation.Dispatch.Handler
