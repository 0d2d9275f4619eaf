import PageInvalidation.Dispatch.Meters
import PageInvalidation.Proofs.Binary64.Integers

/-! # What meters show

The library that keeps the meters is documented to count in doubles (`MeterLibrary.Documented`). After any
calls a meter then shows the rounded sum of the counts that it took (`reading_callEach`), and calls are refused
only for counts that no double holds (`callEach_eq_ok`). -/

namespace PageInvalidation.Dispatch

namespace MeterCall

/-- A call that a meter of doubles can take: a count is not negative and within the doubles. -/
def Fits : MeterCall → Prop
  | .count _ n => 0 ≤ n ∧ (Binary64.ofInt n).isFinite = true
  | .observe _ => True

instance : DecidablePred Fits
  | .count _ _ => inferInstanceAs (Decidable (_ ∧ _))
  | .observe _ => inferInstanceAs (Decidable True)

/-- The numbers that a call counts for a meter. -/
def amounts (meter : Meter) : MeterCall → List ℕ
  | .count m n => if m = meter then [n.toNat] else []
  | .observe _ => []

end MeterCall

/-- Natural numbers added to a double one after the other. -/
def addAll (x : Binary64) (ns : List ℕ) : Binary64 := ns.foldl (fun x (n : ℕ) => x + .ofInt n) x

theorem addAll_append (x : Binary64) (ns ns' : List ℕ) : addAll x (ns ++ ns') = addAll (addAll x ns) ns' := by
  rw [addAll, List.foldl_append]
  rfl

/-- What a library of meters is documented to do. -/
structure MeterLibrary.Documented (l : MeterLibrary) : Prop where
  starts : ∀ meter, l.reading [] meter = .zero false
  takes : ∀ calls c, l.refusal calls c = none ↔ c.Fits
  counts : ∀ calls meter n, (MeterCall.count meter n).Fits →
    l.reading (calls ++ [.count meter n]) meter = l.reading calls meter + .ofInt n
  keeps : ∀ calls c meter, (∀ n, c = .count meter n → ¬c.Fits) →
    l.reading (calls ++ [c]) meter = l.reading calls meter

theorem MeterLibrary.documented_ofDoubles : MeterLibrary.ofDoubles.Documented := by
  have htakes : ∀ c, refusalOf c = none ↔ c.Fits := by
    intro c
    cases c with
    | count meter n =>
      rw [refusalOf, MeterCall.Fits]
      split_ifs with hneg hfinite
      · exact iff_of_false not_false fun h => absurd h.1 (not_le.mpr hneg)
      · exact iff_of_true rfl ⟨not_lt.mp hneg, hfinite⟩
      · exact iff_of_false not_false fun h => hfinite h.2
    | observe x => exact iff_of_true rfl trivial
  have hstep : ∀ calls c meter, ofDoubles.reading (calls ++ [c]) meter =
      added meter (ofDoubles.reading calls meter) c := fun calls c meter =>
    List.foldl_append
  refine ⟨fun _ => rfl, fun _ => htakes, fun calls meter n hfits => ?_, fun calls c meter hkept => ?_⟩
  · rw [hstep, added, if_pos ⟨rfl, Option.isNone_iff_eq_none.mpr ((htakes _).mpr hfits)⟩]
  · rw [hstep]
    cases c with
    | count m n =>
      refine if_neg fun h => ?_
      obtain ⟨rfl, htaken⟩ := h
      exact hkept n rfl ((htakes _).mp (Option.isNone_iff_eq_none.mp htaken))
    | observe x => rfl

namespace Meters

variable {m : Meters} {c : MeterCall} {calls : List MeterCall}

theorem call_snd (h : m.library.Documented) : (m.call c).2 = .ok () ↔ c.Fits := by
  rw [← h.takes m.calls c]
  cases hrefusal : m.library.refusal m.calls c <;> simp [call, hrefusal]

theorem reading_call (h : m.library.Documented) (meter : Meter) :
    (m.call c).1.reading meter = addAll (m.reading meter) (if c.Fits then c.amounts meter else []) := by
  by_cases hcounted : c.Fits ∧ ∃ n, c = .count meter n
  · obtain ⟨hfits, n, rfl⟩ := hcounted
    rw [if_pos hfits, MeterCall.amounts, if_pos rfl]
    exact (h.counts m.calls meter n hfits).trans (by rw [addAll, List.foldl_cons, Int.toNat_of_nonneg hfits.1]; rfl)
  · have hkept := h.keeps m.calls c meter fun n hn hfits => hcounted ⟨hfits, n, hn⟩
    have hnone : (if c.Fits then c.amounts meter else []) = [] := by
      split
      · rename_i hfits
        cases c with
        | count other n =>
          exact if_neg fun hother => hcounted ⟨hfits, n, by rw [hother]⟩
        | observe x => rfl
      · rfl
    rw [hnone]
    exact hkept

theorem callEach_cons_of_fits (h : m.library.Documented) (hc : c.Fits) :
    m.callEach (c :: calls) = (m.call c).1.callEach calls := by
  have hok := (call_snd h).mpr hc
  rw [callEach]
  rcases hcall : m.call c with ⟨m', r⟩
  rw [hcall] at hok
  obtain rfl : r = .ok () := hok
  rfl

theorem callEach_cons_of_not_fits (h : m.library.Documented) (hc : ¬c.Fits) :
    (m.callEach (c :: calls)).1 = (m.call c).1 := by
  have hrefused := mt (call_snd h).mp hc
  rw [callEach]
  rcases hcall : m.call c with ⟨m', _ | ⟨⟩⟩
  · rfl
  · rw [hcall] at hrefused
    exact absurd rfl hrefused

theorem library_callEach : ∀ (calls : List MeterCall) (m : Meters), (m.callEach calls).1.library = m.library
  | [], _ => rfl
  | c :: calls, m => by
    rw [callEach]
    rcases hcall : m.call c with ⟨m', _ | ⟨⟩⟩
    · exact congrArg (fun p => p.1.library) hcall.symm
    · exact (library_callEach calls m').trans (congrArg (fun p => p.1.library) hcall.symm)

/-- **Calls that fit are not refused.** -/
theorem callEach_eq_ok : ∀ {calls : List MeterCall} {m : Meters}, m.library.Documented → (∀ c ∈ calls, c.Fits) →
    (m.callEach calls).2 = .ok ()
  | [], _, _, _ => rfl
  | c :: calls, m, h, hcalls => by
    obtain ⟨hc, hcalls⟩ := List.forall_mem_cons.mp hcalls
    rw [callEach_cons_of_fits h hc]
    exact callEach_eq_ok (m := (m.call c).1) h hcalls

/-- **A meter shows the rounded sum of what was counted**, up to a count that does not fit. -/
theorem reading_callEach (meter : Meter) : ∀ {calls : List MeterCall} {m : Meters}, m.library.Documented →
    (m.callEach calls).1.reading meter =
      addAll (m.reading meter) ((calls.takeWhile MeterCall.Fits).flatMap (MeterCall.amounts meter))
  | [], _, _ => rfl
  | c :: calls, m, h => by
    by_cases hc : c.Fits
    · rw [callEach_cons_of_fits h hc, reading_callEach meter (m := (m.call c).1) h, reading_call h, if_pos hc,
        List.takeWhile_cons_of_pos (by simpa using hc), List.flatMap_cons, addAll_append]
    · rw [callEach_cons_of_not_fits h hc, reading_call h, if_neg hc,
        List.takeWhile_cons_of_neg (by simpa using hc)]
      rfl

end Meters

end PageInvalidation.Dispatch
