import PageInvalidation.Proofs.Json.RoundTrip
import PageInvalidation.Proofs.Outcome
import PageInvalidation.Wire.Writing

/-! # Which values are written

A value is written exactly if it does not nest too deep and no surrogate stands alone in its texts
(`Wire.exists_write_iff`). The names of its members are written whatever they are, but only names without such
surrogates are read back. -/

namespace PageInvalidation

namespace Json

mutual

/-- A value without lone surrogates in its texts; its names may have some. -/
def Encodable : Value → Prop
  | .str s => Text.CodeText.isScalar s = true
  | .arr items => ItemsEncodable items
  | .obj members => MembersEncodable members
  | _ => True

/-- Items without lone surrogates in their texts. -/
def ItemsEncodable : List Value → Prop
  | [] => True
  | v :: rest => v.Encodable ∧ ItemsEncodable rest

/-- Members without lone surrogates in the texts of their values. -/
def MembersEncodable : Members → Prop
  | [] => True
  | (_, v) :: rest => v.Encodable ∧ MembersEncodable rest

end

mutual

theorem encodable_of_portable : ∀ v : Value, v.Portable → v.Encodable
  | .null, _ | .bool _, _ | .int _, _ | .float _, _ => trivial
  | .str _, h => h
  | .arr items, h => itemsEncodable_of_portable items h
  | .obj members, h => membersEncodable_of_portable members h.2

theorem itemsEncodable_of_portable : ∀ items : List Value, ItemsPortable items → ItemsEncodable items
  | [], _ => trivial
  | v :: rest, h => ⟨encodable_of_portable v h.1, itemsEncodable_of_portable rest h.2⟩

theorem membersEncodable_of_portable : ∀ members : Members, MembersPortable members → MembersEncodable members
  | [], _ => trivial
  | (_, v) :: rest, h => ⟨encodable_of_portable v h.2.1, membersEncodable_of_portable rest h.2.2⟩

end

theorem itemsEncodable_iff : ∀ {items : List Value}, ItemsEncodable items ↔ ∀ v ∈ items, v.Encodable
  | [] => by simp [ItemsEncodable]
  | v :: rest => by
    have ih : ItemsEncodable rest ↔ ∀ v ∈ rest, v.Encodable := itemsEncodable_iff
    rw [ItemsEncodable, ih, List.forall_mem_cons]

end Json

namespace Wire

theorem bind_unit_eq_ok {ε : Type} {x y : Except ε Unit} : (x >>= fun _ => y) = .ok () ↔ x = .ok () ∧ y = .ok () := by
  rw [Outcome.bind_eq_ok]
  exact ⟨fun ⟨_, hx, hy⟩ => ⟨hx, hy⟩, fun ⟨hx, hy⟩ => ⟨(), hx, hy⟩⟩

theorem checkText_eq_ok_iff {s : Text.CodeText} : checkText s = .ok () ↔ Text.CodeText.isScalar s = true := by
  rw [← Text.Utf8.exists_writable_iff, checkText]
  cases Text.Utf8.writable s with
  | ok cs => simp
  | error u => simp

mutual

/-- **A value passes** exactly if it fits into what is left and its texts can be encoded. -/
theorem checkValue_eq_ok_iff : ∀ (left : ℕ) (v : Value), checkValue left v = .ok () ↔ v.depth ≤ left ∧ v.Encodable
  | 0, v => by
    have hpos := Json.depth_pos v
    rw [checkValue]
    exact iff_of_false nofun fun h => by omega
  | left + 1, .str s => by
    have hdepth : (Json.str s : Value).depth ≤ left + 1 := Nat.le_add_left 1 left
    rw [checkValue, checkText_eq_ok_iff, and_iff_right hdepth, Json.Encodable]
  | left + 1, .arr items => by
    rw [checkValue, checkItems_eq_ok_iff left items, Json.Encodable, Json.depth, Nat.succ_le_succ_iff]
  | left + 1, .obj members => by
    rw [checkValue, checkMembers_eq_ok_iff left members, Json.Encodable, Json.depth, Nat.succ_le_succ_iff]
  | left + 1, .null | left + 1, .bool _ | left + 1, .int _ | left + 1, .float _ =>
    iff_of_true rfl ⟨Nat.succ_pos left, trivial⟩

theorem checkItems_eq_ok_iff (left : ℕ) : ∀ items : List Value,
    checkItems left items = .ok () ↔ Json.itemsDepth items ≤ left ∧ Json.ItemsEncodable items
  | [] => iff_of_true rfl ⟨Nat.zero_le left, trivial⟩
  | v :: rest => by
    rw [checkItems, bind_unit_eq_ok, checkValue_eq_ok_iff left v, checkItems_eq_ok_iff left rest, Json.itemsDepth,
      Json.ItemsEncodable, max_le_iff, and_and_and_comm]

theorem checkMembers_eq_ok_iff (left : ℕ) : ∀ members : Members,
    checkMembers left members = .ok () ↔ Json.membersDepth members ≤ left ∧ Json.MembersEncodable members
  | [] => iff_of_true rfl ⟨Nat.zero_le left, trivial⟩
  | (_, v) :: rest => by
    rw [checkMembers, bind_unit_eq_ok, checkValue_eq_ok_iff left v, checkMembers_eq_ok_iff left rest,
      Json.membersDepth, Json.MembersEncodable, max_le_iff, and_and_and_comm]

end

/-- **Which values are written**, and as what. -/
theorem write_eq_ok_iff {v : Value} {s : String} :
    write v = .ok s ↔ v.depth ≤ maxWrittenDepth ∧ v.Encodable ∧ s = Json.compact.write v := by
  rw [write, Outcome.map_eq_ok, ← and_assoc, ← checkValue_eq_ok_iff]
  constructor
  · rintro ⟨_, h, rfl⟩
    exact ⟨h, rfl⟩
  · rintro ⟨h, rfl⟩
    exact ⟨(), h, rfl⟩

theorem exists_write_iff {v : Value} (hdepth : v.depth ≤ maxWrittenDepth) : (∃ s, write v = .ok s) ↔ v.Encodable := by
  simp only [write_eq_ok_iff]
  exact ⟨fun ⟨_, _, h, _⟩ => h, fun h => ⟨_, hdepth, h, rfl⟩⟩

end Wire

end PageInvalidation
