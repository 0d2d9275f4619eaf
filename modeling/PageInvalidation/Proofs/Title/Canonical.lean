import Mathlib.Data.List.Chain
import PageInvalidation.Proofs.Text.Size
import PageInvalidation.Proofs.Title.History

/-! # Canonical titles

What normalizing gives is spaced and spelled as a title should be (`Title.isSinglySpaced_of_normalize`), but the limit
on its bytes is checked before its first character is put in upper case, which can add up to four bytes. A normal form
within the limit is canonical: it is normalized to itself, and it finds the page registered under it until another
comes under it. One beyond the limit is refused on both ways (`TitleIndex.canonical_and_found_unless_too_long`). -/

namespace PageInvalidation

namespace Title

open Text (CodePoint CodeText isBlank upperChar)
open Text.Utf8 (size size_append size_cons size_upperChar_le)

variable {text r s : CodeText}

/-! ### Spacing -/

/-- No blank stands at an end of a text or beside another. -/
structure IsSinglySpaced (s : CodeText) : Prop where
  head : ∀ p ∈ s.head?, p.satisfies isBlank = false
  last : ∀ p ∈ s.getLast?, p.satisfies isBlank = false
  apart : s.IsChain fun p q => p.satisfies isBlank = false ∨ q.satisfies isBlank = false

theorem IsWord.isSinglySpaced {w : CodeText} (h : IsWord w) : IsSinglySpaced w where
  head p hp := (h.2 p (List.mem_of_mem_head? hp)).1
  last p hp := (h.2 p (List.mem_of_mem_getLast? hp)).1
  apart := by
    refine List.Pairwise.isChain (List.pairwise_of_forall_mem_list fun p hp q _ => ?_)
    exact .inl (h.2 p hp).1

theorem IsSinglySpaced.cons_word {w : CodeText} (hw : IsWord w) (hne : s ≠ []) (hs : IsSinglySpaced s) :
    IsSinglySpaced (w ++ .scalar ' ' :: s) where
  head p hp := by
    rw [List.head?_append_of_ne_nil _ hw.1] at hp
    exact hw.isSinglySpaced.head p hp
  last p hp := by
    rw [List.getLast?_append_of_ne_nil _ (List.cons_ne_nil _ _), List.getLast?_cons_of_ne_nil hne] at hp
    exact hs.last p hp
  apart := by
    refine List.isChain_append.mpr ⟨hw.isSinglySpaced.apart, List.isChain_cons.mpr ⟨?_, hs.apart⟩, ?_⟩
    · exact fun q hq => .inr (hs.head q hq)
    · exact fun p hp _ _ => .inl (hw.isSinglySpaced.last p hp)

/-- **Words joined by single spaces are singly spaced.** -/
theorem isSinglySpaced_intercalate : ∀ {ws : List CodeText}, ws ≠ [] → (∀ w ∈ ws, IsWord w) →
    List.intercalate [.scalar ' '] ws ≠ [] ∧ IsSinglySpaced (List.intercalate [.scalar ' '] ws)
  | [], hne, _ => absurd rfl hne
  | [w], _, hws => by
    have hw := hws w List.mem_cons_self
    simpa [List.intercalate] using ⟨hw.1, hw.isSinglySpaced⟩
  | w :: w' :: ws, _, hws => by
    have hw := hws w List.mem_cons_self
    obtain ⟨hne, hs⟩ := isSinglySpaced_intercalate (List.cons_ne_nil w' ws) fun v hv => hws v (List.mem_cons_of_mem w hv)
    rw [Text.intercalate_cons_cons]
    exact ⟨by simp, hs.cons_word hw hne⟩

/-- A normal form has no blank but single spaces, no underscore and no illegal character. -/
theorem isSinglySpaced_of_normalize (h : normalize text = .ok r) : IsSinglySpaced r ∧
    ∀ p ∈ r, (p.satisfies isBlank = true → p = .scalar ' ') ∧ p ≠ .scalar '_' ∧ p.satisfies isIllegal = false := by
  obtain ⟨hnormal, -⟩ := isNormal_of_normalize h
  obtain ⟨ws, hne, hws, hr⟩ := hnormal.words
  refine ⟨hr ▸ (isSinglySpaced_intercalate hne hws).2, fun p hp => ?_⟩
  have hlegal := hnormal.legal p hp
  rw [hr] at hp
  rcases Text.mem_intercalate hp with rfl | ⟨w, hw, hp⟩
  · exact ⟨fun _ => rfl, by decide, hlegal⟩
  · obtain ⟨hblank, hscore⟩ := (hws w hw).2 p hp
    refine ⟨fun hp => ?_, hscore, hlegal⟩
    rw [hblank] at hp
    cases hp

/-! ### Length -/

/-- The first character is all that can make a normal form longer. -/
theorem size_capitalised_le {cs cs' : List Char} (h : capitalised (.ofList cs) = .ofList cs') :
    size cs' ≤ size cs + 4 ∧
      ((∀ c ∈ cs.head?, size (upperChar c) ≤ size [c]) → size cs' ≤ size cs) := by
  cases cs with
  | nil =>
    have hcs : CodeText.ofList [] = CodeText.ofList cs' := h
    obtain rfl := CodeText.ofList_injective hcs
    exact ⟨Nat.zero_le _, fun _ => Nat.le_refl _⟩
  | cons c rest =>
    have hcs : upperChar c ++ rest = cs' := CodeText.ofList_injective ((CodeText.ofList_append _ _).trans h)
    have hupper := size_upperChar_le c
    have hsize := size_append (upperChar c) rest
    rw [← hcs, hsize, size_cons c rest]
    refine ⟨by omega, fun hfirst => ?_⟩
    have hc := hfirst c rfl
    omega

/-- **A normal form has at most four bytes too many**, and none unless its first character has grown. -/
theorem size_of_normalize {cs : List Char} (h : normalize text = .ok (.ofList cs)) : size cs ≤ maxBytes + 4 ∧
    ((∀ c, (spaced text).head? = some (.scalar c) → size (upperChar c) ≤ size [c]) → size cs ≤ maxBytes) := by
  obtain ⟨-, -, ⟨chars, hchars, hlimit⟩, hcs⟩ := normalize_eq_ok_iff.mp h
  rw [hchars] at hcs ⊢
  obtain ⟨hbound, hkept⟩ := size_capitalised_le hcs.symm
  refine ⟨hbound.trans (Nat.add_le_add_right hlimit 4), fun hfirst => (hkept fun c hc => hfirst c ?_).trans hlimit⟩
  rw [CodeText.ofList, List.head?_map, Option.mem_def.mp hc, Option.map_some]

end Title

namespace TitleIndex

open Text.Utf8 (size size_cons size_replicate)

variable {t : TitleIndex} {text r : Text.CodeText}

/-! ### Registering and looking up -/

theorem add_of_normalize (h : Title.normalize text = .ok r) (t : TitleIndex) (n m : ℤ) (stored : Bool) :
    t.add n (.str text) m stored = .ok (t.insert ⟨n, m, r, stored⟩, ⟨n, m, r, stored⟩) := by
  rw [add, Title.normalizeValue, h]
  rfl

theorem register_of_normalize (h : Title.normalize text = .ok r) (t : TitleIndex) (n m : ℤ) (stored : Bool) :
    t.register ⟨n, .str text, m, stored⟩ = t.insert ⟨n, m, r, stored⟩ := by
  rw [register, add_of_normalize h]

theorem pageById_insert (t : TitleIndex) (p : PageRef) : (t.insert p).pageById p.pageId = .ok p := by
  have hfind : (t.insert p).byId.find? p.pageId = some p := (t.byId.find?_put p _).trans (if_pos rfl)
  rw [pageById, hfind]

theorem find?_foldl_register : ∀ (gs : List Registration) (t : TitleIndex),
    (∀ g ∈ gs, ∀ p, g.page? = some p → p.text ≠ r) →
      (gs.foldl register t).byText.find? r = t.byText.find? r
  | [], _, _ => rfl
  | g :: gs, t, h => by
    have hstep : (t.register g).byText.find? r = t.byText.find? r := by
      rw [register_eq]
      cases hp : g.page? with
      | none => rfl
      | some p =>
        have hne : p.text ≠ r := h g List.mem_cons_self p hp
        exact (t.byText.find?_put p r).trans (if_neg hne)
    rw [List.foldl_cons, find?_foldl_register gs _ fun g hg => h g (List.mem_cons_of_mem _ hg), hstep]

/-- **A normal form is canonical and finds its page unless it is too long.** It has no lone surrogate, single spaces,
no underscore and no illegal character, and at most four bytes too many, none if its first character does not grow in
upper case. If it is within the limit, it is normalized to itself, and a lookup finds the page registered under it
whatever is registered under other titles later; if it is not, it can neither be normalized nor looked up. -/
theorem canonical_and_found_unless_too_long (h : Title.normalize text = .ok r) :
    ∃ cs : List Char, r = .ofList cs ∧
    Title.IsSinglySpaced r ∧
    (∀ c ∈ cs, (Text.isBlank c = true → c = ' ') ∧ c ≠ '_' ∧ Title.isIllegal c = false) ∧
    size cs ≤ Title.maxBytes + 4 ∧
    ((∀ c, (Title.spaced text).head? = some (.scalar c) → size (Text.upperChar c) ≤ size [c]) →
      size cs ≤ Title.maxBytes) ∧
    Title.normalize r = (if size cs ≤ Title.maxBytes then .ok r else .error (.tooLong r)) ∧
    ∀ (t : TitleIndex) (n m : ℤ) (stored : Bool),
      ∃ t', t.add n (.str text) m stored = .ok (t', ⟨n, m, r, stored⟩) ∧
        ∀ gs : List Registration, (∀ g ∈ gs, ∀ p, g.page? = some p → p.text ≠ r) →
          (gs.foldl register t').pageByText (.str r) =
            if size cs ≤ Title.maxBytes then .ok ⟨n, m, r, stored⟩ else .error (.tooLong r) := by
  obtain ⟨hspaced, hchars⟩ := Title.isSinglySpaced_of_normalize h
  obtain ⟨hnormal, cs, rfl⟩ := Title.isNormal_of_normalize h
  obtain ⟨hbound, hkept⟩ := Title.size_of_normalize h
  have hagain := Title.normalize_of_isNormal hnormal
  refine ⟨cs, rfl, hspaced, fun c hc => ?_, hbound, hkept, hagain, fun t n m stored => ?_⟩
  · obtain ⟨hblank, hscore, hlegal⟩ := hchars (.scalar c) (List.mem_map_of_mem hc)
    exact ⟨fun hc => Text.CodePoint.scalar.inj (hblank hc), fun hc => hscore (congrArg _ hc), hlegal⟩
  refine ⟨_, add_of_normalize h t n m stored, fun gs hgs => ?_⟩
  have hfound : (gs.foldl register (t.insert ⟨n, m, .ofList cs, stored⟩)).byText.find? (.ofList cs) =
      some ⟨n, m, .ofList cs, stored⟩ := by
    rw [find?_foldl_register gs _ hgs]
    exact (t.byText.find?_put _ _).trans (if_pos rfl)
  rw [pageByText, Title.normalizeValue, hagain]
  split
  · rw [Except.map, hfound, Option.getD_some]
  · rfl

/-- A title with blanks and a first character that grows in upper case: still found after another page has come. -/
theorem canonical_and_found_unless_too_long_grown :
    Title.normalize " _ŉandu__rhea " = .ok "ʼNandu rhea" ∧ Title.normalize "ʼNandu rhea" = .ok "ʼNandu rhea" ∧
      ∃ t, empty.add 1 (.str " _ŉandu__rhea ") 0 true = .ok (t, ⟨1, 0, "ʼNandu rhea", true⟩) ∧
        (t.register ⟨2, .str "Emu", 0, true⟩).pageByText (.str "ʼNandu rhea") = .ok ⟨1, 0, "ʼNandu rhea", true⟩ := by
  have h : Title.normalize " _ŉandu__rhea " = .ok "ʼNandu rhea" := by decide +kernel
  have hsize : size "ʼNandu rhea".toList ≤ Title.maxBytes := by decide
  obtain ⟨cs, hcs, -, -, -, -, hagain, hfound⟩ := canonical_and_found_unless_too_long h
  obtain rfl := Text.CodeText.ofList_injective hcs
  obtain ⟨t, hadd, hlater⟩ := hfound empty 1 0 true
  have hother : ∀ g ∈ [(⟨2, .str "Emu", 0, true⟩ : Registration)], ∀ p, g.page? = some p → p.text ≠ "ʼNandu rhea" := by
    intro g hg p hp
    cases List.mem_singleton.mp hg
    have hpage : (⟨2, 0, "Emu", true⟩ : PageRef) = p := Option.some.inj hp
    rw [← hpage]
    decide
  refine ⟨h, hagain.trans (if_pos hsize), t, hadd, ?_⟩
  exact (hlater _ hother).trans (if_pos hsize)

/-- A title of 255 bytes that has 256 in normal form: this one is refused, and its page cannot be looked up. -/
theorem too_long_in_upper_case :
    let title := Text.CodeText.ofList ('ŉ' :: List.replicate 253 'a')
    let chars := 'ʼ' :: 'N' :: List.replicate 253 'a'
    let normal := Text.CodeText.ofList chars
    let t := ofRegistrations [⟨1, .str title, 0, true⟩]
    Title.normalize title = .ok normal ∧ size chars = 256 ∧ Title.normalize normal = .error (.tooLong normal) ∧
      t.pageById 1 = .ok ⟨1, 0, normal, true⟩ ∧ t.pageByText (.str normal) = .error (.tooLong normal) := by
  intro title chars normal t
  have hchars : ∀ p ∈ title, (p.satisfies Text.isBlank = false ∧ p ≠ .scalar '_') ∧
      p.satisfies Title.isIllegal = false := by
    refine List.forall_mem_cons.mpr ⟨by decide, fun p hp => ?_⟩
    obtain ⟨c, hc, rfl⟩ := List.mem_map.mp hp
    rw [List.eq_of_mem_replicate hc]
    decide
  have hword : Title.IsWord title := ⟨List.cons_ne_nil _ _, fun p hp => (hchars p hp).1⟩
  have hupper : Text.upperPoint (.scalar 'ŉ') = .ofList ['ʼ', 'N'] := by decide +kernel
  have hlimit : size ('ŉ' :: List.replicate 253 'a') ≤ Title.maxBytes := by
    rw [size_cons, size_replicate]
    decide
  have h : Title.normalize title = .ok normal := by
    refine Title.normalize_eq_ok_iff.mpr ?_
    rw [hword.spaced_eq]
    refine ⟨List.cons_ne_nil _ _, fun p hp => (hchars p hp).2, ⟨_, rfl, hlimit⟩, ?_⟩
    exact (congrArg (· ++ Text.CodeText.ofList (List.replicate 253 'a')) hupper).symm
  have hsize : size chars = 256 := by
    rw [size_cons 'ʼ', size_cons 'N', size_replicate]
    decide
  have hagain : Title.normalize normal = .error (.tooLong normal) := by
    rw [Title.normalize_of_isNormal (Title.isNormal_of_normalize h).1, hsize, if_neg (by decide)]
  have ht : t = empty.insert ⟨1, 0, normal, true⟩ := by
    have hfirst : ∀ g, ofRegistrations [g] = empty.register g := fun _ => rfl
    exact (hfirst _).trans (register_of_normalize h empty 1 0 true)
  refine ⟨h, hsize, hagain, ?_, ?_⟩
  · rw [ht]
    exact pageById_insert empty _
  · rw [pageByText, Title.normalizeValue, hagain]
    rfl

end TitleIndex

end PageInvalidation
