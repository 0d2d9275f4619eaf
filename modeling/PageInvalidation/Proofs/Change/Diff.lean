import PageInvalidation.Change.Diff
import PageInvalidation.Proofs.Keyed

/-! # The leaves of a diff

A change *has a leaf* if one stands somewhere in its tree; then and only then its count is positive
(`DiffOp.hasLeaf_iff_count_pos`). The leaves of a diff are those in some of its entries and those in the
others (`DiffOp.countEntries_filter_add`), and an entry found under a key is the only one there. -/

namespace PageInvalidation

namespace DiffOp

/-- A leaf stands in the tree of a change. -/
inductive HasLeaf : DiffOp → Prop
  | leaf {op : DiffOp} (h : op.isLeaf = true) : HasLeaf op
  | nested {form : DiffForm} {entries : List (DiffKey × DiffOp)} {associative : Bool}
      {e : DiffKey × DiffOp} (he : e ∈ entries) (h : HasLeaf e.2) :
      HasLeaf (.nested form entries associative)

/-! ### Counting -/

theorem count_of_isLeaf {op : DiffOp} (h : op.isLeaf = true) : op.count = 1 := by
  cases op with
  | nested => cases h
  | _ => rfl

theorem count_le_countEntries {e : DiffKey × DiffOp} : ∀ {entries : List (DiffKey × DiffOp)},
    e ∈ entries → e.2.count ≤ countEntries entries
  | (k, op) :: rest, h => by
    rw [countEntries]
    rcases List.mem_cons.mp h with rfl | h
    · exact Nat.le_add_right _ _
    · exact (count_le_countEntries h).trans (Nat.le_add_left _ _)

theorem HasLeaf.count_pos {op : DiffOp} (h : op.HasLeaf) : 0 < op.count := by
  induction h with
  | leaf h => rw [count_of_isLeaf h]; exact Nat.one_pos
  | nested he _ ih => exact ih.trans_le (count_le_countEntries he)

mutual

theorem hasLeaf_of_count_pos : ∀ op : DiffOp, 0 < op.count → op.HasLeaf
  | .add _, _ => .leaf rfl
  | .remove _, _ => .leaf rfl
  | .change _ _, _ => .leaf rfl
  | .unspecified, _ => .leaf rfl
  | .nested _ entries _, h =>
    let ⟨_, he, hl⟩ := exists_hasLeaf_of_countEntries_pos entries h
    .nested he hl

theorem exists_hasLeaf_of_countEntries_pos : ∀ entries : List (DiffKey × DiffOp),
    0 < countEntries entries → ∃ e ∈ entries, e.2.HasLeaf
  | [], h => by cases h
  | (k, op) :: rest, h => by
    rw [countEntries] at h
    rcases Nat.eq_zero_or_pos op.count with h0 | hpos
    · obtain ⟨e, he, hl⟩ := exists_hasLeaf_of_countEntries_pos rest (by omega)
      exact ⟨e, List.mem_cons_of_mem _ he, hl⟩
    · exact ⟨(k, op), List.mem_cons_self, hasLeaf_of_count_pos op hpos⟩

end

/-- **A change counts a leaf if and only if it has one.** -/
theorem hasLeaf_iff_count_pos {op : DiffOp} : op.HasLeaf ↔ 0 < op.count :=
  ⟨HasLeaf.count_pos, hasLeaf_of_count_pos op⟩

theorem countEntries_pos_iff {entries : List (DiffKey × DiffOp)} :
    0 < countEntries entries ↔ ∃ e ∈ entries, e.2.HasLeaf :=
  ⟨exists_hasLeaf_of_countEntries_pos entries,
    fun ⟨_, he, h⟩ => h.count_pos.trans_le (count_le_countEntries he)⟩

theorem countEntries_filter_add (q : DiffKey × DiffOp → Bool) : ∀ entries : List (DiffKey × DiffOp),
    countEntries (entries.filter q) + countEntries (entries.filter fun e => !q e) =
      countEntries entries
  | [] => rfl
  | (k, op) :: rest => by
    have ih := countEntries_filter_add q rest
    cases h : q (k, op) <;> simp [h, countEntries] <;> omega

theorem length_le_countEntries : ∀ {entries : List (DiffKey × DiffOp)},
    (∀ e ∈ entries, e.2.HasLeaf) → entries.length ≤ countEntries entries
  | [], _ => Nat.zero_le _
  | (k, op) :: rest, h => by
    have hop : 0 < op.count := (h (k, op) List.mem_cons_self).count_pos
    have hrest := length_le_countEntries fun e he => h e (List.mem_cons_of_mem _ he)
    rw [countEntries, List.length_cons]
    omega

end DiffOp

/-! ### Entries and fields -/

namespace Diff

variable {d : Diff} {k : DiffKey} {op : DiffOp}

theorem mem_of_get?_eq_some (h : d.get? k = some op) : (k, op) ∈ d.entries := by
  obtain ⟨e, he, rfl⟩ := Option.map_eq_some_iff.mp h
  have hk : e.1 = k := by simpa using List.find?_some he
  exact hk ▸ List.mem_of_find?_eq_some he

theorem filter_key_eq (hd : d.keys.Nodup) (k : DiffKey) :
    d.entries.filter (fun e => e.1 = k) = ((d.get? k).map fun op => (k, op)).toList := by
  rw [filter_key_of_nodup Prod.fst k hd, get?, Option.map_map, findBy]
  cases hf : d.entries.find? fun e => e.1 = k with
  | none => rfl
  | some e =>
    have hk : e.1 = k := by simpa using List.find?_some hf
    rw [Option.map_some, ← hk]
    rfl

theorem field_eq_ok {f : DiffField} {sub : Diff} : d.field f = .ok sub ↔
    d.get? (.name f.key) = none ∧ sub = .empty .plain ∨ d.get? (.name f.key) = some sub.toOp := by
  rw [field]
  cases hg : d.get? (.name f.key) with
  | none => simp [eq_comm]
  | some op =>
    obtain ⟨form, entries, associative⟩ := sub
    cases op <;> simp [DiffOp.toDiff?, toOp]

theorem countEntries_field (hd : d.keys.Nodup) {f : DiffField} {sub : Diff}
    (h : d.field f = .ok sub) :
    DiffOp.countEntries (d.entries.filter fun e => e.1 = .name f.key) = sub.count := by
  rw [filter_key_eq hd]
  rcases field_eq_ok.mp h with ⟨hg, rfl⟩ | hg
  · rw [hg]
    rfl
  · rw [hg]
    exact Nat.add_zero _

end Diff

end PageInvalidation
