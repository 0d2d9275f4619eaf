import PageInvalidation.Number
import PageInvalidation.Proofs.Binary64.Integers

/-! # Quotients of numbers

A quotient fails because of a zero divisor only if the divisor is zero (`sparesZero_divide`), and no other
operation does. -/

namespace PageInvalidation.Number

variable {α β : Type} {r : Except NumberError α} {f : α → Except NumberError β} {a b : Number}

/-- A computation that does not fail because of a zero divisor. -/
def SparesZero (r : Except NumberError α) : Prop := ∀ binary, r ≠ .error (.zeroDivisor binary)

theorem sparesZero_ok (a : α) : SparesZero (.ok a) := fun _ h => nomatch h

theorem SparesZero.bind (hr : SparesZero r) (hf : ∀ a, SparesZero (f a)) : SparesZero (r >>= f) := by
  cases r with
  | ok a => exact hf a
  | error e =>
    intro binary h
    cases h
    exact hr binary rfl

theorem sparesZero_toBinary (a : Number) : SparesZero a.toBinary := by
  intro binary h
  cases a with
  | whole n =>
    rw [toBinary] at h
    split at h <;> cases h
  | binary x => cases h

theorem sparesZero_sub (a b : Number) : SparesZero (a.sub b) := by
  have hbinary : SparesZero (do return Number.binary ((← a.toBinary) - (← b.toBinary))) :=
    (sparesZero_toBinary a).bind fun _ => (sparesZero_toBinary b).bind fun _ => sparesZero_ok _
  cases a with
  | whole m =>
    cases b with
    | whole n => exact sparesZero_ok _
    | binary y => exact hbinary
  | binary x => exact hbinary

/-- A zero of either kind. -/
def IsZero : Number → Prop
  | .whole n => n = 0
  | .binary x => x.isZero = true

theorem not_isZero_of_pos (h : (whole 0).lt b = true) : ¬b.IsZero := by
  intro hzero
  cases b with
  | whole n =>
    have hpos : 0 < n := of_decide_eq_true h
    exact hpos.ne' hzero
  | binary x =>
    have hmagnitude : x.magnitude = 0 := beq_iff_eq.mp hzero
    have hinf : Binary64.infinityMagnitude = 2047 * 2 ^ 52 := rfl
    have hNaN : x.isNaN = false := decide_eq_false (by omega)
    have hfinite : x.isFinite = true := decide_eq_true (by omega)
    have hsignificand : x.significand = 0 := by
      rw [Binary64.significand, if_pos (by rw [hmagnitude]; decide), hmagnitude]
    have hcompare : compareInteger 0 x = some .eq := by
      rw [compareInteger, hNaN, if_neg Bool.false_ne_true, Binary64.ratio?, if_pos hfinite, hsignificand]
      simp [Ratio.signedNum]
    rw [lt, hcompare] at h
    exact absurd h (by decide)

theorem sparesZero_divideBinary {x y : Binary64} (h : y.isZero = false) : SparesZero (divideBinary x y) := by
  rw [divideBinary, h]
  exact sparesZero_ok _

/-- **Only a zero makes a quotient fail as a zero divisor.** -/
theorem sparesZero_divide (a : Number) (h : ¬b.IsZero) : SparesZero (a.divide b) := by
  have hbinary : SparesZero (do divideBinary (← a.toBinary) (← b.toBinary)) := by
    refine (sparesZero_toBinary a).bind fun x => ?_
    cases b with
    | whole n =>
      rw [toBinary]
      split
      · exact sparesZero_divideBinary (Binary64.isZero_ofInt h)
      · intro binary h
        cases h
    | binary y => exact sparesZero_divideBinary (Bool.eq_false_iff.mpr h)
  cases a with
  | whole m =>
    cases b with
    | whole n =>
      intro binary hzero
      have hn : n ≠ 0 := h
      rw [divide, divideWhole, if_neg hn] at hzero
      dsimp only at hzero
      split at hzero <;> cases hzero
    | binary y => exact hbinary
  | binary x => exact hbinary

end PageInvalidation.Number
