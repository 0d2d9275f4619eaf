import PageInvalidation.Proofs.Text.Numeral
import PageInvalidation.Proofs.Text.Words

/-! # Fields in a text

A text may be made of words that are a label and a value around an equals sign. Where all of them are printed
characters, the value of a label can be read off the text (`findField?_intercalate`). -/

namespace PageInvalidation.Text

variable {label : String} {name : List Char} {fields : List (String × String)}

/-! ### Reading -/

/-- The value in a word that is a label and a value around an equals sign, if the label is the one asked for. -/
def fieldValue? (label : String) (word : List Char) : Option (List Char) :=
  if word.takeWhile (· != '=') == label.toList then some ((word.dropWhile (· != '=')).drop 1) else none

/-- The value of the first field of a text that has a label. -/
def findField? (label text : String) : Option (List Char) := (words isBlank text.toList).findSome? (fieldValue? label)

/-- The number that a text of digits writes. -/
def natural? (s : List Char) : Option ℕ :=
  match spanDigits s with
  | (digits, []) => some (ofDigits digits)
  | _ => none

theorem toList_toString (n : ℕ) : (toString n).toList = Nat.toDigits 10 n := String.toList_ofList

theorem natural?_toString (n : ℕ) : natural? (toString n).toList = some n := by
  rw [natural?, toList_toString, spanDigits_of_isDigit isDigit_of_mem_toDigits]
  exact congrArg some (ofDigits_toDigits n)

/-! ### Printed characters of numbers -/

theorem isGraphic_of_isDigit {c : Char} (h : c.isDigit = true) : isGraphic c = true := by
  obtain ⟨hlow, hhigh⟩ := Char.isDigit_iff_toNat.mp h
  rw [isGraphic, Bool.and_eq_true, decide_eq_true_eq, decide_eq_true_eq]
  exact ⟨Nat.lt_of_lt_of_le (by decide) hlow, Nat.lt_of_le_of_lt hhigh (by decide)⟩

theorem all_isGraphic_toDigits (n : ℕ) : (Nat.toDigits 10 n).all isGraphic = true :=
  List.all_eq_true.mpr fun _ hc => isGraphic_of_isDigit (isDigit_of_mem_toDigits _ hc)

/-! ### Words that are fields -/

/-- A label and a value as a word. -/
def fieldWord (field : String × String) : List Char := field.1.toList ++ '=' :: field.2.toList

theorem fieldValue?_fieldWord (label : String) {field : String × String} (h : '=' ∉ field.1.toList) :
    fieldValue? label (fieldWord field) = if label == field.1 then some field.2.toList else none := by
  have hall : ∀ c ∈ field.1.toList, (c != '=') = true := fun c hc => by
    rw [bne_iff_ne]
    rintro rfl
    exact h hc
  have hlabel : (field.1.toList == label.toList) = (label == field.1) := by
    rw [Bool.eq_iff_iff, beq_iff_eq, beq_iff_eq, String.toList_inj, eq_comm]
  rw [fieldValue?, fieldWord, List.takeWhile_append_of_pos hall, List.dropWhile_append_of_pos hall]
  simp [hlabel]

theorem findSome?_fieldValue? (label : String) : ∀ {fields : List (String × String)},
    (∀ f ∈ fields, '=' ∉ f.1.toList) →
      (fields.map fieldWord).findSome? (fieldValue? label) = (fields.lookup label).map String.toList
  | [], _ => rfl
  | f :: fields, h => by
    obtain ⟨hf, hfields⟩ := List.forall_mem_cons.mp h
    rw [List.map_cons, List.findSome?_cons, fieldValue?_fieldWord label hf, findSome?_fieldValue? label hfields,
      List.lookup_cons]
    cases label == f.1 <;> rfl

/-- The words of a name and fields that are joined. -/
theorem words_fields (hname : name ≠ []) (hgraphic : name.all isGraphic = true)
    (h : ∀ f ∈ fields, f.1.toList.all isGraphic = true ∧ f.2.toList.all isGraphic = true) :
    words isBlank (List.intercalate [' '] (name :: fields.map fieldWord)) = name :: fields.map fieldWord := by
  refine words_intercalate (by decide) fun word hword => ?_
  have hall : word ≠ [] ∧ word.all isGraphic = true := by
    rcases List.mem_cons.mp hword with rfl | hword
    · exact ⟨hname, hgraphic⟩
    · obtain ⟨f, hf, rfl⟩ := List.mem_map.mp hword
      obtain ⟨hlabel, hvalue⟩ := h f hf
      refine ⟨by simp [fieldWord], ?_⟩
      rw [fieldWord, List.all_append, List.all_cons, hlabel, hvalue]
      rfl
  exact ⟨hall.1, fun c hc => isBlank_of_isGraphic (List.all_eq_true.mp hall.2 c hc)⟩

/-- **The value of a label is found in a text** that joins a name and fields. -/
theorem findField?_intercalate {text : String}
    (htext : text.toList = List.intercalate [' '] (name :: fields.map fieldWord)) (hname : name ≠ [])
    (hother : fieldValue? label name = none) (hgraphic : name.all isGraphic = true)
    (h : ∀ f ∈ fields, f.1.toList.all isGraphic = true ∧ f.2.toList.all isGraphic = true)
    (hlabels : ∀ f ∈ fields, '=' ∉ f.1.toList) : findField? label text = (fields.lookup label).map String.toList := by
  rw [findField?, htext, words_fields hname hgraphic h, List.findSome?_cons, hother]
  exact findSome?_fieldValue? label hlabels

end PageInvalidation.Text
