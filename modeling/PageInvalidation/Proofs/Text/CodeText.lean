import Mathlib.Data.List.Basic
import Mathlib.Logic.Function.Basic
import PageInvalidation.Text.Utf8

/-! # Texts without lone surrogates

A text without lone surrogates is that of a list of characters (`CodeText.isScalar_iff`), and these are the texts that
can be written as UTF-8 (`Utf8.writable_eq_ok_iff`). -/

namespace PageInvalidation.Text

namespace CodePoint

@[simp] theorem satisfies_scalar (p : Char → Bool) (c : Char) : (CodePoint.scalar c).satisfies p = p c := rfl

@[simp] theorem satisfies_lone (p : Char → Bool) (half : Fin 2048) : (CodePoint.lone half).satisfies p = false := rfl

theorem satisfies_eq_true {p : Char → Bool} {q : CodePoint} :
    q.satisfies p = true ↔ ∃ c, q = .scalar c ∧ p c = true := by
  cases q <;> simp

end CodePoint

namespace CodeText

@[simp] theorem ofList_nil : ofList [] = [] := rfl

@[simp] theorem ofList_cons (c : Char) (s : List Char) : ofList (c :: s) = .scalar c :: ofList s := rfl

@[simp] theorem ofList_append (s s' : List Char) : ofList (s ++ s') = ofList s ++ ofList s' := List.map_append

theorem ofList_injective : Function.Injective ofList :=
  List.map_injective_iff.mpr fun _ _ => CodePoint.scalar.inj

@[simp] theorem ofList_inj {s s' : List Char} : ofList s = ofList s' ↔ s = s' := ofList_injective.eq_iff

theorem ofString_injective : Function.Injective ofString :=
  ofList_injective.comp fun _ _ => String.toList_inj.mp

@[simp] theorem ofString_inj {s s' : String} : ofString s = ofString s' ↔ s = s' := ofString_injective.eq_iff

@[simp] theorem ofString_ofList (s : List Char) : ofString (String.ofList s) = ofList s := by
  rw [ofString, String.toList_ofList]

theorem isScalar_ofList : ∀ s : List Char, isScalar (ofList s) = true
  | [] => rfl
  | _ :: s => isScalar_ofList s

theorem isScalar_ofString (s : String) : isScalar (ofString s) = true := isScalar_ofList s.toList

theorem isScalar_iff : ∀ {t : CodeText}, isScalar t = true ↔ ∃ s, t = ofList s
  | [] => ⟨fun _ => ⟨[], rfl⟩, fun _ => rfl⟩
  | .scalar c :: t => by
    refine (isScalar_iff (t := t)).trans ⟨?_, ?_⟩
    · rintro ⟨s, rfl⟩
      exact ⟨c :: s, rfl⟩
    · rintro ⟨_ | ⟨c', s⟩, h⟩
      · cases h
      · exact ⟨s, (List.cons.inj h).2⟩
  | .lone _ :: t => by
    refine iff_of_false Bool.false_ne_true ?_
    rintro ⟨_ | ⟨_, _⟩, h⟩ <;> cases h

theorem replaced_ofList : ∀ s : List Char, replaced (ofList s) = s
  | [] => rfl
  | c :: s => congrArg (c :: ·) (replaced_ofList s)

end CodeText

namespace Utf8

theorem writableFrom_ofList (position : ℕ) (s : List Char) : writableFrom position (CodeText.ofList s) = .ok s := by
  induction s generalizing position with
  | nil => rfl
  | cons c s ih =>
    rw [CodeText.ofList_cons, writableFrom, ih]
    rfl

theorem eq_ofList_of_writableFrom : ∀ {t : CodeText} {position : ℕ} {s : List Char},
    writableFrom position t = .ok s → t = CodeText.ofList s
  | [], _, _, h => by
    cases h
    rfl
  | .scalar c :: t, position, s, h => by
    rw [writableFrom] at h
    cases ht : writableFrom (position + 1) t with
    | error u =>
      rw [ht] at h
      cases h
    | ok rest =>
      rw [ht] at h
      cases h
      rw [eq_ofList_of_writableFrom ht, CodeText.ofList_cons]
  | .lone _ :: _, _, _, h => by cases h

theorem writable_ofList (s : List Char) : writable (CodeText.ofList s) = .ok s := writableFrom_ofList 0 s

/-- **What can be written** is the text of a list of characters. -/
theorem writable_eq_ok_iff {t : CodeText} {s : List Char} : writable t = .ok s ↔ t = CodeText.ofList s :=
  ⟨eq_ofList_of_writableFrom, by rintro rfl; exact writable_ofList s⟩

theorem exists_writable_iff {t : CodeText} : (∃ s, writable t = .ok s) ↔ CodeText.isScalar t = true := by
  rw [CodeText.isScalar_iff]
  exact exists_congr fun _ => writable_eq_ok_iff

end Utf8

end PageInvalidation.Text
