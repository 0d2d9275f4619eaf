import PageInvalidation.Binary64.Basic

/-! # Shortest decimals

The shortest decimal that reads back as a given number. A decimal grid with `n` digits has two
neighbours of the number; the first `n` for which a neighbour reads back gives the digits. Of two that
do the nearer is taken, and of two equally near the even one. -/

namespace PageInvalidation

/-- The decimal `digits · 10 ^ exponent`. -/
structure Decimal where
  digits : Nat
  exponent : Int
  deriving DecidableEq, Repr

namespace Binary64

/-- The smallest `k` with `num / den < 10 ^ k`, found among three neighbours of an estimate. -/
def decimalCeiling (num den : Nat) : Int :=
  let estimate := floorLog2 num den * 30103 / 100000
  let below (k : Int) : Bool := num * Nat.pow 10 (-k).toNat < den * Nat.pow 10 k.toNat
  if below estimate then estimate
  else if below (estimate + 1) then estimate + 1
  else estimate + 2

/-- Whether a decimal without a sign reads back as a number of the given magnitude. -/
def readsBack (magnitude : Nat) (d : Decimal) : Bool :=
  (ofDecimal false d.digits d.exponent).magnitude == magnitude

/-- The neighbour on the grid of multiples of `10 ^ unit` that reads back, the nearer one first. -/
def onGrid (magnitude num den : Nat) (unit : Int) : Option Decimal :=
  let n := num * Nat.pow 10 (-unit).toNat
  let d := den * Nat.pow 10 unit.toNat
  let low : Decimal := ⟨n / d, unit⟩
  let high : Decimal := ⟨n / d + 1, unit⟩
  let lowFirst := 2 * (n % d) < d || (2 * (n % d) == d && (n / d) % 2 == 0)
  let (first, second) := if lowFirst then (low, high) else (high, low)
  if readsBack magnitude first then some first
  else if readsBack magnitude second then some second
  else none

/-- A decimal with ten as its digits, written with one digit. -/
def Decimal.carried (d : Decimal) : Decimal := if d.digits == 10 then ⟨1, d.exponent + 1⟩ else d

/-- The shortest decimal that reads back as the magnitude of a finite number. -/
def shortest (x : Binary64) : Decimal :=
  match x.ratio? with
  | none => ⟨0, 0⟩
  | some r =>
    if r.num == 0 then ⟨0, 0⟩
    else
      let top := decimalCeiling r.num r.den
      let places := (List.range 17).map fun n => top - (n + 1 : Nat)
      ((places.findSome? (onGrid x.magnitude r.num r.den)).map Decimal.carried).getD ⟨0, 0⟩

end Binary64

end PageInvalidation
