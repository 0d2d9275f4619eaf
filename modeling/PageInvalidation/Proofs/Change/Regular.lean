import PageInvalidation.Proofs.Change.Malformed

/-! # Regular diffs

In a *regular* diff each label has a language and counts one leaf. What is touched can then be told field by field,
without counting: the leaves that are left over when the site links and one for each label are taken off are those
of the other fields (`ChangedAspects.otherKeys_eq`). So the keys of a regular diff can be written out, in order
(`ChangedAspects.classified_exactly`). -/

namespace PageInvalidation

/-! ### Entries -/

namespace DiffOp

instance : DecidablePred HasLeaf := fun _ => decidable_of_iff _ hasLeaf_iff_count_pos.symm

/-- The entries of a change; a leaf has none. -/
def entries : DiffOp → List (DiffKey × DiffOp)
  | .nested _ entries _ => entries
  | _ => []

theorem countEntries_of_single : ∀ {entries : List (DiffKey × DiffOp)}, (∀ e ∈ entries, e.2.count = 1) →
    countEntries entries = entries.length
  | [], _ => rfl
  | (k, op) :: rest, h => by
    have hop : op.count = 1 := h (k, op) List.mem_cons_self
    rw [countEntries, hop, countEntries_of_single fun e he => h e (List.mem_cons_of_mem _ he), List.length_cons,
      Nat.add_comm]

end DiffOp

namespace Diff

variable {d sub : Diff} {f : DiffField}

/-- What stands in a field. -/
def entriesOf (d : Diff) (f : DiffField) : List (DiffKey × DiffOp) :=
  match d.get? (.name f.key) with
  | some op => op.entries
  | none => []

/-- What a diff should be for its labels to be told apart: no field that is looked into is a leaf, the keys are
distinct, and each label has a language and counts one leaf. -/
structure Regular (d : Diff) : Prop where
  nodup : d.keys.Nodup
  labels : ¬d.Misplaced .labels
  siteLinks : d.form = .item → ¬d.Misplaced .siteLinks
  nodup_labels : ((d.entriesOf .labels).map Prod.fst).Nodup
  nodup_links : ((d.entriesOf .siteLinks).map Prod.fst).Nodup
  named : ∀ e ∈ d.entriesOf .labels, ∃ language, language ≠ [] ∧ e.1 = .name language
  single : ∀ e ∈ d.entriesOf .labels, e.2.count = 1

theorem entries_of_field (h : d.field f = .ok sub) : sub.entries = d.entriesOf f := by
  unfold entriesOf
  rcases field_eq_ok.mp h with ⟨hg, rfl⟩ | hg
  · rw [hg]
    rfl
  · rw [hg]
    rfl

/-! ### What is touched -/

instance (d : Diff) : Decidable d.HasLeaf := inferInstanceAs (Decidable (∃ e ∈ d.entries, e.2.HasLeaf))

/-- The site links of an item change. -/
def TouchesLinks (d : Diff) : Prop := d.form = .item ∧ d.entriesOf .siteLinks ≠ []

/-- The link of the own site changes, by a leaf or in its name. -/
def TouchesTitle (site : Text.CodeText) (d : Diff) : Prop :=
  d.form = .item ∧ ∃ e ∈ d.entriesOf .siteLinks, e.1 = .name site ∧
    (e.2.isLeaf = true ∨ ∃ part ∈ e.2.entries, part.1 = .name "name")

/-- A leaf stands in a field that is not told apart. -/
def TouchesOther (d : Diff) : Prop := ∃ e ∈ d.entries, ¬d.IsApart e.1 ∧ e.2.HasLeaf

instance (d : Diff) : Decidable d.TouchesLinks := inferInstanceAs (Decidable (_ ∧ _))

instance (site : Text.CodeText) (d : Diff) : Decidable (d.TouchesTitle site) := inferInstanceAs (Decidable (_ ∧ _))

instance (d : Diff) : Decidable d.TouchesOther := inferInstanceAs (Decidable (∃ e ∈ d.entries, _))

/-- The texts of the keys that a regular diff with leaves touches, in order. -/
def touchedTexts (site : Text.CodeText) (d : Diff) : List Text.CodeText :=
  (if d.TouchesLinks then [("S" : Text.CodeText)] else []) ++
    (if d.TouchesTitle site then [("T" : Text.CodeText)] else []) ++
    (d.entriesOf .labels).map (fun e => Text.CodeText.ofString "L." ++ e.1.text) ++
    (if d.TouchesOther then [("O" : Text.CodeText)] else [])

theorem get?_eq_some_iff {key : DiffKey} {op : DiffOp} (hd : d.keys.Nodup) :
    d.get? key = some op ↔ (key, op) ∈ d.entries := by
  refine ⟨mem_of_get?_eq_some, fun h => ?_⟩
  have hmem : (key, op) ∈ d.entries.filter fun e => e.1 = key := List.mem_filter.mpr ⟨h, decide_eq_true rfl⟩
  rw [filter_key_eq hd] at hmem
  cases hg : d.get? key with
  | none =>
    rw [hg] at hmem
    cases hmem
  | some op' =>
    rw [hg] at hmem
    cases List.mem_singleton.mp hmem
    rfl

theorem hasName_iff {name : Text.CodeText} : d.hasName name = true ↔ ∃ e ∈ d.entries, e.1 = .name name := by
  rw [hasName, get?, Option.isSome_map, List.find?_isSome]
  exact exists_congr fun e => and_congr Iff.rfl decide_eq_true_iff

end Diff

namespace ChangedAspects

variable {site : Text.CodeText} {d links labels : Diff} {part : Part} {keys : List AspectKey} {c : EntityChange}

/-! ### Site links -/

theorem badgesOnly_eq_false_iff {op : DiffOp} :
    badgesOnly op = false ↔ op.isLeaf = true ∨ ∃ part ∈ op.entries, part.1 = .name "name" := by
  cases op with
  | nested form entries associative =>
    have hname : Diff.hasName ⟨form, entries, associative⟩ nameKey = true ↔ _ := Diff.hasName_iff
    rw [badgesOnly, DiffOp.toDiff?, Bool.not_eq_false', hname]
    exact (or_iff_right Bool.false_ne_true).symm
  | _ => simp [badgesOnly, DiffOp.toDiff?, DiffOp.isLeaf]

theorem siteLinkKeys_eq (site : Text.CodeText) (links : Diff) :
    siteLinkKeys site links = .bare .siteLink ::
      if ∃ op, links.get? (.name site) = some op ∧ badgesOnly op = false then [.bare .title] else [] := by
  unfold siteLinkKeys
  cases links.get? (.name site) with
  | none => simp
  | some op => cases h : badgesOnly op <;> simp [h]

theorem keys_siteLinkPart (h : d.Regular) (hpart : siteLinkPart site d = .ok part) : part.keys =
    (if d.TouchesLinks then [.bare .siteLink] else []) ++ if d.TouchesTitle site then [.bare .title] else [] := by
  rcases siteLinkPart_eq_ok.mp hpart with ⟨hform, rfl⟩ | ⟨hitem, links, hlinks, rfl⟩
  · simp [Diff.TouchesLinks, Diff.TouchesTitle, hform]
  · have hentries := Diff.entries_of_field hlinks
    have hd : links.keys.Nodup := by
      rw [Diff.keys, hentries]
      exact h.nodup_links
    have htitle : d.TouchesTitle site ↔ ∃ op, links.get? (.name site) = some op ∧ badgesOnly op = false := by
      simp only [Diff.get?_eq_some_iff hd, badgesOnly_eq_false_iff, hentries]
      rw [Diff.TouchesTitle, and_iff_right hitem]
      constructor
      · rintro ⟨⟨_, op⟩, he, rfl, hop⟩
        exact ⟨op, he, hop⟩
      · rintro ⟨op, he, hop⟩
        exact ⟨_, he, rfl, hop⟩
    cases hempty : links.isEmpty with
    | true =>
      have hnil : d.entriesOf .siteLinks = [] := hentries ▸ List.isEmpty_iff.mp hempty
      simp [Diff.TouchesLinks, Diff.TouchesTitle, hnil]
    | false =>
      have hne : d.entriesOf .siteLinks ≠ [] := by
        rw [← hentries, ← List.isEmpty_eq_false_iff]
        exact hempty
      rw [if_neg Bool.false_ne_true, siteLinkKeys_eq]
      simp only [← htitle, Diff.TouchesLinks, hitem, hne, ne_eq, not_false_eq_true, and_self, if_true,
        List.singleton_append]

/-! ### Labels -/

theorem text_of_labelKey {language : Text.CodeText} {k : AspectKey} (h : labelKey (.name language) = .ok k) :
    k.text = Text.CodeText.ofString "L." ++ language := by
  have hmake : AspectKey.make .label (some language) = .ok k := h
  obtain ⟨ha, hm⟩ := Prod.mk.inj (AspectKey.make_eq_ok_iff.mp hmake)
  rw [AspectKey.text, ha, hm]
  rfl

theorem map_text_of_labelKeys : ∀ {es : List (DiffKey × DiffOp)} {keys : List AspectKey},
    (∀ e ∈ es, ∃ language, language ≠ [] ∧ e.1 = .name language) →
    List.Forall₂ (fun key k => labelKey key = .ok k) (es.map Prod.fst) keys →
      keys.map AspectKey.text = es.map fun e => Text.CodeText.ofString "L." ++ e.1.text
  | [], _, _, h => by
    cases h
    rfl
  | e :: es, _, hnamed, h => by
    obtain ⟨k, ks, hk, hks, rfl⟩ := List.forall₂_cons_left_iff.mp h
    obtain ⟨language, -, hname⟩ := hnamed e List.mem_cons_self
    rw [hname] at hk
    rw [List.map_cons, List.map_cons, text_of_labelKey hk, hname,
      map_text_of_labelKeys (fun e he => hnamed e (List.mem_cons_of_mem _ he)) hks]
    rfl

theorem text_labelPart (h : d.Regular) (hpart : labelPart d = .ok part) :
    part.keys.map AspectKey.text = (d.entriesOf .labels).map fun e => Text.CodeText.ofString "L." ++ e.1.text := by
  obtain ⟨labels, keys, hlabels, hkeys, rfl⟩ := labelPart_eq_ok.mp hpart
  have hentries := Diff.entries_of_field hlabels
  refine map_text_of_labelKeys h.named ?_
  rw [← hentries]
  exact Outcome.mapM_eq_ok.mp hkeys

/-! ### Other -/

/-- **What is left over are the leaves of the other fields.** -/
theorem otherKeys_eq (h : d.Regular) {links labels : Part} (hlinks : siteLinkPart site d = .ok links)
    (hlabels : labelPart d = .ok labels) :
    otherKeys d.count [links, labels] = if d.TouchesOther then [.bare .other] else [] := by
  obtain ⟨sub, hsub, hleaves⟩ := leaves_labelPart hlabels
  have hsingle : sub.count = sub.entries.length := by
    refine DiffOp.countEntries_of_single ?_
    rw [Diff.entries_of_field hsub]
    exact h.single
  have hcount := d.count_eq_add
  rw [Diff.leavesIn, Diff.countEntries_field h.nodup hsub, ← leaves_siteLinkPart h.nodup hlinks, hsingle,
    ← hleaves] at hcount
  have haccounted : accounted [links, labels] = links.leaves + labels.leaves := rfl
  have hother : (0 : ℤ) < d.count - accounted [links, labels] ↔ d.TouchesOther := by
    rw [haccounted, hcount, Diff.TouchesOther, ← Diff.otherLeaves_pos_iff]
    omega
  exact ite_congr (propext hother) (fun _ => rfl) fun _ => rfl

/-! ### Changes -/

theorem nodup_labelPart (h : d.Regular) (hpart : labelPart d = .ok part) : part.keys.Nodup := by
  refine List.Nodup.of_map AspectKey.text ?_
  have hmap : (d.entriesOf .labels).map (fun e => Text.CodeText.ofString "L." ++ e.1.text) =
      ((d.entriesOf .labels).map Prod.fst).map fun key => Text.CodeText.ofString "L." ++ key.text := by
    rw [List.map_map]
    rfl
  rw [text_labelPart h hpart, hmap]
  refine h.nodup_labels.map_on fun key hkey key' hkey' heq => ?_
  obtain ⟨e, he, rfl⟩ := List.mem_map.mp hkey
  obtain ⟨e', he', rfl⟩ := List.mem_map.mp hkey'
  obtain ⟨language, -, hname⟩ := h.named e he
  obtain ⟨language', -, hname'⟩ := h.named e' he'
  rw [hname, hname'] at heq ⊢
  have hlanguage : language = language' := by simpa [DiffKey.text] using heq
  rw [hlanguage]

/-- The parts of a regular diff touch different keys. -/
theorem nodup_parts (h : d.Regular) {links labels : Part} (hlinks : siteLinkPart site d = .ok links)
    (hlabels : labelPart d = .ok labels) :
    (links.keys ++ labels.keys ++ otherKeys d.count [links, labels]).Nodup := by
  have hlinks' : links.keys.Nodup := by
    rw [keys_siteLinkPart h hlinks]
    split <;> split <;> decide
  have hlabel : ∀ k ∈ labels.keys, k.isModified = true := fun k hk => (mem_keys_labelPart hlabels hk).2
  have hlink : ∀ k ∈ links.keys, k.isModified = false ∧ k ≠ .bare .other := by
    intro k hk
    rcases mem_keys_siteLinkPart hlinks hk with rfl | rfl
    · exact ⟨rfl, by decide⟩
    · exact ⟨rfl, by decide⟩
  have hother : ∀ k ∈ otherKeys d.count [links, labels], k = .bare .other := fun k hk => (mem_otherKeys.mp hk).1
  have hothers : (otherKeys d.count [links, labels]).Nodup := by
    rw [otherKeys_eq h hlinks hlabels]
    split
    · exact List.nodup_singleton _
    · exact List.nodup_nil
  refine List.nodup_append.mpr ⟨List.nodup_append.mpr ⟨hlinks', nodup_labelPart h hlabels, ?_⟩, hothers, ?_⟩
  · rintro k hk k' hk' rfl
    exact Bool.false_ne_true ((hlink k hk).1.symm.trans (hlabel k hk'))
  · intro k hk k' hk' heq
    rw [hother k' hk'] at heq
    rcases List.mem_append.mp hk with hk | hk
    · exact (hlink k hk).2 heq
    · exact Bool.false_ne_true ((congrArg AspectKey.isModified heq).symm.trans (hlabel k hk))

/-- **The keys that a regular diff with leaves touches**, written out. -/
theorem ofDiff_of_regular (site : Text.CodeText) (h : d.Regular) (hleaf : d.HasLeaf) :
    ∃ keys, ofDiff site d = .ok keys ∧ keys.map AspectKey.text = d.touchedTexts site := by
  obtain ⟨links, hlinks⟩ := exists_siteLinkPart site fun hm => h.siteLinks hm.1 hm.2
  obtain ⟨sub, hsub⟩ := Diff.exists_field h.labels
  have hnamed : ∀ k ∈ sub.keys, ¬k.IsBlank := by
    intro k hk
    rw [Diff.keys, Diff.entries_of_field hsub] at hk
    obtain ⟨e, he, rfl⟩ := List.mem_map.mp hk
    obtain ⟨language, hne, hname⟩ := h.named e he
    rw [hname]
    rintro (hblank | hblank)
    · exact hne (DiffKey.name.inj hblank)
    · cases hblank
  obtain ⟨labels, hlabels⟩ := exists_labelPart hsub hnamed
  rw [ofDiff, if_neg (Diff.hasLeaf_iff.mp hleaf), hlinks, hlabels]
  refine ⟨_, rfl, ?_⟩
  rw [distinct_of_nodup (nodup_parts h hlinks hlabels), List.map_append, List.map_append, text_labelPart h hlabels,
    keys_siteLinkPart h hlinks, otherKeys_eq h hlinks hlabels, List.map_append, Diff.touchedTexts,
    apply_ite (List.map AspectKey.text), apply_ite (List.map AspectKey.text), apply_ite (List.map AspectKey.text)]
  rfl

/-- **What a regular change is reported as.** The texts of the keys come in a fixed order, the site links, the
title, the labels as they stand in the diff and other, each for the fields that change only, and none twice. A
change without leaves is reported as other. -/
theorem classified_exactly (site : Text.CodeText) (h : c.diff.Regular) : ∃ keys, ofChange site c = .ok keys ∧
    keys.map AspectKey.text = (if c.diff.HasLeaf then c.diff.touchedTexts site else [("O" : Text.CodeText)]) ∧
    (keys.map AspectKey.text).Nodup := by
  have hkeys : ∃ keys, ofChange site c = .ok keys ∧
      keys.map AspectKey.text = if c.diff.HasLeaf then c.diff.touchedTexts site else [("O" : Text.CodeText)] := by
    by_cases hleaf : c.diff.HasLeaf
    · rw [if_pos hleaf]
      exact ofDiff_of_regular site h hleaf
    · rw [if_neg hleaf, ofChange, ofDiff, if_pos (not_not.mp (mt Diff.hasLeaf_iff.mpr hleaf))]
      exact ⟨_, rfl, rfl⟩
  obtain ⟨keys, hok, htexts⟩ := hkeys
  exact ⟨keys, hok, htexts, (nodup_of_ofDiff hok).map fun _ _ => AspectKey.text_injective⟩

/-- Links of two sites, a label and an alias. -/
theorem classified_exactly_everything :
    let c : EntityChange :=
      { isItem := true
        entity := ⟨"Q1", by decide⟩
        diff := ⟨.item, [(.name "sitelinks", .nested .plain [(.name "enwiki", .add (.str "Cat")),
          (.name "dewiki", .add (.str "Katze"))] true), (.name "labels", .nested .plain
          [(.name "en", .add (.str "Cat"))] true), (.name "aliases", .nested .plain [(.name "en",
          .nested .plain [(.index 0, .add (.str "Kitty"))] false)] true)], true⟩
        action := .update
        revision := 0
        time := none
        metadata := []
        of_entity := nofun }
    c.diff.Regular ∧ ∃ keys, ofChange "enwiki" c = .ok keys ∧
      keys.map AspectKey.text = ["S", "T", "L.en", "O"].map Text.CodeText.ofString := by
  intro c
  have h : c.diff.Regular :=
    { nodup := by decide
      labels := by
        rintro ⟨op, hop, hleaf⟩
        cases hop
        cases hleaf
      siteLinks := by
        rintro - ⟨op, hop, hleaf⟩
        cases hop
        cases hleaf
      nodup_labels := by decide
      nodup_links := by decide
      named := by
        intro e he
        cases List.mem_singleton.mp he
        exact ⟨"en", by decide, rfl⟩
      single := by
        intro e he
        cases List.mem_singleton.mp he
        rfl }
  obtain ⟨keys, hok, htexts, -⟩ := classified_exactly "enwiki" h
  exact ⟨h, keys, hok, htexts.trans (by decide)⟩

end ChangedAspects

end PageInvalidation
