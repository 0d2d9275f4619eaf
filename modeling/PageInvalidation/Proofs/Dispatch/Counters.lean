import PageInvalidation.Dispatch.Meters
import PageInvalidation.Proofs.Text.Fields

/-! # Counters in a logged line

A window can be logged if its counters are short and its length is within the doubles (`fields_eq_some_iff`). Its line
is a name and fields, in printed characters (`toList_lineOf`, `all_isGraphic_shownFields`), so that its counters can be
read off (`read_lineOf`). -/

namespace PageInvalidation

/-! ### Texts with a fixed number of places -/

namespace Binary64

theorem all_isGraphic_fixed (places : ℕ) (x : Binary64) : (x.fixed places).all Text.isGraphic = true := by
  have hsign : (if x.isNegative then ['-'] else []).all Text.isGraphic = true := by split <;> rfl
  have hpadded : ∀ n m, (padded m (Nat.toDigits 10 n)).all Text.isGraphic = true := fun n m => by
    rw [padded, List.all_append, Text.all_isGraphic_toDigits, Bool.and_true, zeros, List.all_eq_true]
    intro c hc
    rw [List.eq_of_mem_replicate hc]
    rfl
  unfold fixed
  dsimp only
  split
  · split
    · rfl
    · rw [List.all_append, hsign]
      rfl
  · rename_i r hr
    have hdigits := List.all_eq_true.mp (hpadded (roundDiv (r.num * Nat.pow 10 places) r.den) (places + 1))
    rw [List.all_append, List.all_append, List.all_cons, hsign, Bool.true_and, Bool.and_eq_true, Bool.and_eq_true,
      List.all_eq_true, List.all_eq_true]
    exact ⟨fun c hc => hdigits c (List.mem_of_mem_take hc), rfl, fun c hc => hdigits c (List.mem_of_mem_drop hc)⟩

end Binary64

/-! ### The line of a window -/

namespace Dispatch

/-- The counters of a window that are shown in its line. -/
inductive Counter where
  | dispatched
  | pages
  | skipped
  | failures
  deriving DecidableEq, Repr

namespace Counter

/-- The label in the line. -/
def label : Counter → String
  | dispatched => "dispatched"
  | pages => "pages"
  | skipped => "skipped"
  | failures => "failures"

/-- The value in a window. -/
def value : Counter → Window → ℤ
  | dispatched, w => w.dispatched
  | pages, w => w.pages
  | skipped, w => w.skipped
  | failures, w => w.failed

/-- The value that a logged line shows. -/
def read (c : Counter) (line : String) : Option ℕ := (Text.findField? c.label line).bind Text.natural?

end Counter

namespace Window

variable {w : Window} {rate latency seconds : Binary64}

/-- The labels and values of a line, with its counters in full. -/
def shownFields (w : Window) (rate latency seconds : Binary64) : List (String × String) :=
  [("changes_per_second", String.ofList (rate.fixed 3)), ("avg_latency_ms", String.ofList (latency.fixed 2)),
    ("dispatched", toString w.dispatched), ("pages", toString w.pages), ("skipped", toString w.skipped),
    ("failures", toString w.failed), ("window_sec", String.ofList (seconds.fixed 2))]

/-- A window of some length that has a line: its counters are short, and its length is within the doubles. -/
structure Writable (w : Window) (elapsed : Number) : Prop where
  counters : ∀ c : Counter, Text.IsShort (c.value w)
  length : ∃ seconds, elapsed.toBinary = .ok seconds

theorem fields_eq_some_iff {elapsed : Number} {fields : List (String × String)} :
    w.fields rate latency elapsed = some fields ↔
      (∀ c : Counter, Text.IsShort (c.value w)) ∧
        ∃ seconds, elapsed.toBinary = .ok seconds ∧ fields = w.shownFields rate latency seconds := by
  have hdecimal : ∀ (n : ℤ) (text : String), Text.decimal? n = some text ↔ Text.IsShort n ∧ toString n = text :=
    fun n text => by rw [Text.decimal?, Option.ite_none_right_eq_some, Option.some.injEq]
  have hseconds : ∀ x, elapsed.toBinary.toOption = some x ↔ elapsed.toBinary = .ok x := fun x => by
    cases elapsed.toBinary <;> simp [Except.toOption]
  have hcounters : (∀ c : Counter, Text.IsShort (c.value w)) ↔ Text.IsShort w.dispatched ∧ Text.IsShort w.pages ∧
      Text.IsShort w.skipped ∧ Text.IsShort w.failed :=
    ⟨fun h => ⟨h .dispatched, h .pages, h .skipped, h .failures⟩, fun ⟨hd, hp, hs, hf⟩ c => by cases c <;> assumption⟩
  simp only [hcounters, Window.fields, Option.bind_eq_bind, Option.bind_eq_some_iff, hdecimal, hseconds]
  constructor
  · rintro ⟨_, ⟨hd, rfl⟩, _, ⟨hp, rfl⟩, _, ⟨hs, rfl⟩, _, ⟨hf, rfl⟩, seconds, hseconds, ⟨⟩⟩
    exact ⟨⟨hd, hp, hs, hf⟩, seconds, hseconds, rfl⟩
  · rintro ⟨⟨hd, hp, hs, hf⟩, seconds, hseconds, rfl⟩
    exact ⟨_, ⟨hd, rfl⟩, _, ⟨hp, rfl⟩, _, ⟨hs, rfl⟩, _, ⟨hf, rfl⟩, seconds, hseconds, rfl⟩

theorem toString_pages (h : 0 ≤ w.pages) : toString w.pages = toString w.pages.toNat := by
  rw [← Int.toNat_of_nonneg h]
  rfl

theorem toList_lineOf (fields : List (String × String)) :
    (lineOf fields).toList = List.intercalate [' '] ("metrics".toList :: fields.map Text.fieldWord) := by
  have hword : ∀ f : String × String, (f.1 ++ "=" ++ f.2).toList = Text.fieldWord f := fun f => by
    simp [Text.fieldWord, String.toList_append]
  rw [lineOf, String.toList_intercalate, List.map_cons, List.map_map]
  simp only [Function.comp_def, hword]
  rfl

theorem all_isGraphic_shownFields (h : 0 ≤ w.pages) : ∀ f ∈ w.shownFields rate latency seconds,
    f.1.toList.all Text.isGraphic = true ∧ f.2.toList.all Text.isGraphic = true := by
  have hnat : ∀ n : ℕ, (toString n).toList.all Text.isGraphic = true := fun n => by
    rw [Text.toList_toString, Text.all_isGraphic_toDigits]
  have hfixed : ∀ places (x : Binary64), (String.ofList (x.fixed places)).toList.all Text.isGraphic = true :=
    fun places x => by rw [String.toList_ofList, Binary64.all_isGraphic_fixed]
  rw [shownFields, toString_pages h]
  simp only [List.forall_mem_cons]
  exact ⟨⟨by decide, hfixed _ _⟩, ⟨by decide, hfixed _ _⟩, ⟨by decide, hnat _⟩, ⟨by decide, hnat _⟩,
    ⟨by decide, hnat _⟩, ⟨by decide, hnat _⟩, ⟨by decide, hfixed _ _⟩, by simp⟩

/-- **The counters can be read off the line.** -/
theorem read_lineOf (h : 0 ≤ w.pages) (rate latency seconds : Binary64) (c : Counter) :
    ∃ n : ℕ, c.read (lineOf (w.shownFields rate latency seconds)) = some n ∧ c.value w = n := by
  have hlabels : ∀ f ∈ w.shownFields rate latency seconds, '=' ∉ f.1.toList := by
    simp only [shownFields, List.forall_mem_cons]
    refine ⟨by decide, by decide, by decide, by decide, by decide, by decide, by decide, by simp⟩
  have hother : Text.fieldValue? c.label "metrics".toList = none := by cases c <;> decide
  rw [Counter.read, Text.findField?_intercalate (toList_lineOf _) (by decide) hother (by decide)
    (all_isGraphic_shownFields h) hlabels]
  cases c with
  | dispatched => exact ⟨w.dispatched, Text.natural?_toString _, rfl⟩
  | pages =>
    refine ⟨w.pages.toNat, ?_, (Int.toNat_of_nonneg h).symm⟩
    rw [shownFields, toString_pages h]
    exact Text.natural?_toString _
  | skipped => exact ⟨w.skipped, Text.natural?_toString _, rfl⟩
  | failures => exact ⟨w.failed, Text.natural?_toString _, rfl⟩

end Window

end Dispatch

end PageInvalidation
