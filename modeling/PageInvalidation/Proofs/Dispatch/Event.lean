import PageInvalidation.Proofs.Dispatch.Handler
import PageInvalidation.Proofs.Wire.Records

/-! # Events agree with themselves

What an event says of its pages fits what it says of the change: no page and no usage stands there twice, no page
is empty, and each usage is one of the entity that was changed, under a key that was touched
(`Handler.consistent_of_handle`). A page can record a usage of everything or of a whole aspect, and a linked page
need not record anything; the usages that are reported name touched keys all the same. -/

namespace PageInvalidation

/-! ### Touched keys -/

theorem Finder.Affects.mem_touched {f : Finder} {store : UsageStore} {titles : TitleIndex} {c : EntityChange}
    {touched : List AspectKey} {n : ℕ} {k : AspectKey} (h : f.Affects store titles c touched n k)
    (htouched : f.changedAspects c = .ok touched) : k ∈ touched := by
  rcases h with ⟨hk, -⟩ | ⟨rfl, -, htitle, -⟩
  · exact hk
  · exact ChangedAspects.siteLink_mem_of_title_mem htouched htitle

/-! ### Events -/

namespace Wire.EventMessage

/-- The parts of an event fit one another. -/
structure Consistent (e : EventMessage) : Prop where
  changed_ne_nil : e.changedAspects ≠ []
  nodup_changed : e.changedAspects.Nodup
  changed_keys : ∀ text ∈ e.changedAspects, ∃ k, AspectKey.ofText text = .ok k
  pages_ne_nil : e.pages ≠ []
  nodup_pages : (e.pages.map PageMessage.pageId).Nodup
  usages_ne_nil : ∀ p ∈ e.pages, p.usages ≠ []
  nodup_usages : ∀ p ∈ e.pages, p.usages.Nodup
  of_entity : ∀ p ∈ e.pages, ∀ u ∈ p.usages, u.entity = e.entity
  of_changed : ∀ p ∈ e.pages, ∀ u ∈ p.usages, u.keyText ∈ e.changedAspects

end Wire.EventMessage

namespace Dispatch.Handler

open PageUsages (Proper)

variable {σ : Type} [Journalled σ] {f : Finder} {store : UsageStore} {titles : TitleIndex}
  {m : Wire.ChangeMessage} {now : Instant} {e : Wire.EventMessage} {c : EntityChange}
  {touched : List AspectKey} {ps : List PageUsages}

theorem consistent_event (htouched : f.changedAspects c = .ok touched) (hne : ps ≠ []) (hps : Proper ps)
    (husages : ∀ p ∈ ps, ∀ u ∈ p.toList, u.entity = c.entity ∧ u.key ∈ touched) :
    (event m c touched now ps).Consistent where
  changed_ne_nil := by
    have h := ChangedAspects.ofDiff_ne_nil htouched
    simpa [event] using h
  nodup_changed := (ChangedAspects.nodup_of_ofDiff htouched).map fun _ _ => AspectKey.text_injective
  changed_keys := by
    intro text htext
    obtain ⟨k, -, rfl⟩ := List.mem_map.mp htext
    exact ⟨k, k.ofText_text⟩
  pages_ne_nil := by simpa [event] using hne
  nodup_pages := by
    have hids : (ps.map Wire.PageMessage.ofPage).map Wire.PageMessage.pageId =
        (ps.map PageUsages.pageId).map fun n : ℕ => (n : ℤ) := by
      rw [List.map_map, List.map_map]
      rfl
    have hnodup := hps.nodup.map (f := fun n : ℕ => (n : ℤ)) fun _ _ => Int.ofNat.inj
    rwa [← hids] at hnodup
  usages_ne_nil := by
    intro message hmessage
    obtain ⟨p, hp, rfl⟩ := List.mem_map.mp hmessage
    simpa [Wire.PageMessage.ofPage] using hps.ne_nil p hp
  nodup_usages := by
    intro message hmessage
    obtain ⟨p, -, rfl⟩ := List.mem_map.mp hmessage
    exact p.nodup_toList.map fun _ _ => Wire.UsageMessage.ofUsage_injective
  of_entity := by
    intro message hmessage usage husage
    obtain ⟨p, hp, rfl⟩ := List.mem_map.mp hmessage
    obtain ⟨u, hu, rfl⟩ := List.mem_map.mp husage
    exact congrArg EntityId.serialization (husages p hp u hu).1
  of_changed := by
    intro message hmessage usage husage
    obtain ⟨p, hp, rfl⟩ := List.mem_map.mp hmessage
    obtain ⟨u, hu, rfl⟩ := List.mem_map.mp husage
    rw [Wire.UsageMessage.keyText_ofUsage]
    exact List.mem_map_of_mem (husages p hp u hu).2

theorem consistent_of_handleIn (h : handleIn f store titles m now = .ok (some e)) : e.Consistent := by
  obtain ⟨c, ps, aspects, -, hps, hne, haspects, rfl⟩ := handleIn_eq_some_iff.mp h
  obtain ⟨touched, htouched, hproper, hholds⟩ := Finder.affectedIn_eq_ok hps
  cases haspects.symm.trans htouched
  refine consistent_event htouched hne hproper fun p hp u hu => ?_
  obtain ⟨hentity, haffects, -⟩ := (hholds _ u).mp ⟨p, hp, rfl, hu⟩
  exact ⟨hentity, haffects.mem_touched htouched⟩

/-- **A published event is consistent**, whatever the store records and wherever the links of the item lead. -/
theorem consistent_of_handle {s : σ}
    (h : ((handle f (Sources.ofMemory store titles) m now).run.run s).1 = .ok (some e)) : e.Consistent :=
  consistent_of_handleIn ((handle_gives m now s).symm.trans h)

/-- A message about an item that loses its link to the own site and gets a label, the labels being a list. -/
def linkMessage : Wire.ChangeMessage where
  id := 7
  entity := " q1"
  action := .update
  revision := 3
  time := none
  diff := ⟨true, [("sitelinks", .diff true [("enwiki", .remove (.str "Old"))]),
    ("labels", .diff false [("12", .add (.str "x"))])]⟩
  metadata := []

/-- One page uses everything, one all labels, and one was linked. -/
theorem consistent_of_handle_link :
    let f : Finder := ⟨"enwiki", "en", true⟩
    let entity : EntityId := ⟨"Q1", by decide⟩
    let store := (UsageStore.empty.add 1 [⟨entity, .bare .all⟩]).add 2 [⟨entity, .bare .label⟩]
    let titles := ((TitleIndex.empty.insert ⟨1, 0, "User", true⟩).insert ⟨2, 0, "Labels", true⟩).insert
      ⟨10, 0, "Old", true⟩
    ∃ e, ((handle f (Sources.ofMemory store titles) linkMessage ⟨0, none⟩).run.run ([] : List Note)).1 =
      .ok (some e) ∧ e.Consistent := by
  intro f entity store titles
  obtain ⟨c, hc⟩ : ∃ c, linkMessage.toChange = .ok c := ⟨_, rfl⟩
  have htouched : f.changedAspects c = .ok [.bare .siteLink, .bare .title,
      ⟨.label, some "12", by rintro _ ⟨⟩; decide⟩] := by
    cases hc
    rfl
  have hentity : c.entity = entity := by
    cases hc
    rfl
  have hpages : ∀ page ∈ store.pages.toList, 0 ≤ page.1 := by decide
  have hvirtual : ∃ records,
      LinkedTitles.virtualIn titles f.site c LinkedTitles.defaultKeys = .ok records := by
    cases hc
    exact ⟨_, rfl⟩
  obtain ⟨ps, hps⟩ := Finder.exists_affected ([] : List Note) hpages htouched (fun _ _ => hvirtual)
    (Finder.tells_of_isShort (by decide) (by decide))
  have hin : f.affectedIn store titles c = .ok ps := (Finder.affectedBy_gives _).symm.trans hps
  -- the page that uses everything is affected, so there is an event
  have hne : ps ≠ [] := by
    obtain ⟨touched, htouched', hproper, hholds⟩ := Finder.affectedIn_eq_ok hin
    cases htouched.symm.trans htouched'
    have hpage : 1 ∈ ps.map PageUsages.pageId := by
      refine (Finder.mem_pageId_iff_affects hproper hholds).mpr ⟨⟨.bare .title, .inl ⟨by decide, .inl ?_⟩⟩,
        _, rfl, fun _ => rfl⟩
      rw [hentity]
      decide
    rintro rfl
    cases hpage
  have h : handleIn f store titles linkMessage ⟨0, none⟩ = .ok (some (event linkMessage c _ ⟨0, none⟩ ps)) :=
    handleIn_eq_some_iff.mpr ⟨c, ps, _, hc, hin, hne, htouched, rfl⟩
  have hrun := (handle_gives (σ := List Note) linkMessage ⟨0, none⟩ []).trans h
  exact ⟨_, hrun, consistent_of_handle hrun⟩

end Dispatch.Handler

end PageInvalidation
