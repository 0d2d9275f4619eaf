/-! # Binary floating-point numbers

Double-precision numbers by their bits: a sign, eleven bits of exponent and fifty-two of fraction. Every
finite one is `± m · 2 ^ q` for natural numbers `m` and an integer `q`, and all arithmetic is exact
arithmetic on these followed by one rounding to the nearest number, ties to an even `m`.

* `Binary64.ofRatio` rounds a quotient; all other operations round through it.
* `Binary64.ratio?` gives back the exact value of a finite number. -/

namespace PageInvalidation

/-- A double-precision number, by its bits. -/
structure Binary64 where
  bits : UInt64
  deriving DecidableEq, Repr, Inhabited

/-- A quotient with a sign of its own, so that zero has two. -/
structure Ratio where
  negative : Bool
  num : Nat
  den : Nat
  deriving DecidableEq, Repr

namespace Binary64

/-! ### The fields -/

/-- The number without its sign bit. -/
def magnitude (x : Binary64) : Nat := x.bits.toNat % Nat.pow 2 63

/-- Whether the sign bit is set. -/
def isNegative (x : Binary64) : Bool := Nat.pow 2 63 ≤ x.bits.toNat

/-- The magnitude of the infinities. -/
def infinityMagnitude : Nat := 0x7ff * Nat.pow 2 52

/-- A number from a sign and a magnitude. -/
def ofMagnitude (negative : Bool) (magnitude : Nat) : Binary64 :=
  ⟨UInt64.ofNat (magnitude + if negative then Nat.pow 2 63 else 0)⟩

/-- Neither infinite nor undefined. -/
def isFinite (x : Binary64) : Bool := x.magnitude < infinityMagnitude

/-- An infinity. -/
def isInfinite (x : Binary64) : Bool := x.magnitude == infinityMagnitude

/-- No number. -/
def isNaN (x : Binary64) : Bool := infinityMagnitude < x.magnitude

/-- A zero of either sign. -/
def isZero (x : Binary64) : Bool := x.magnitude == 0

/-- The infinity of a sign. -/
def infinity (negative : Bool) : Binary64 := ofMagnitude negative infinityMagnitude

/-- The undefined number. -/
def nan : Binary64 := ofMagnitude false (infinityMagnitude + Nat.pow 2 51)

/-- The zero of a sign. -/
def zero (negative : Bool) : Binary64 := ofMagnitude negative 0

/-- The factor `m` of a finite number `± m · 2 ^ q`. -/
def significand (x : Binary64) : Nat :=
  if x.magnitude < Nat.pow 2 52 then x.magnitude
  else x.magnitude % Nat.pow 2 52 + Nat.pow 2 52

/-- The exponent `q` of a finite number `± m · 2 ^ q`. -/
def exponent (x : Binary64) : Int :=
  if x.magnitude < Nat.pow 2 52 then -1074 else (x.magnitude / Nat.pow 2 52 : Nat) - 1075

/-- The exact value of a finite number. -/
def ratio? (x : Binary64) : Option Ratio :=
  if x.isFinite then
    some ⟨x.isNegative, x.significand * Nat.pow 2 x.exponent.toNat, Nat.pow 2 (-x.exponent).toNat⟩
  else none

/-! ### Rounding -/

/-- The quotient rounded to the nearest natural number, a tie to the even one. -/
def roundDiv (num den : Nat) : Nat :=
  let q := num / den
  let r := num % den
  if 2 * r < den then q
  else if den < 2 * r then q + 1
  else if q % 2 == 0 then q else q + 1

/-- The largest `k` with `2 ^ k ≤ num / den`, for a quotient that is not zero. -/
def floorLog2 (num den : Nat) : Int :=
  let k : Int := (num.log2 : Int) - den.log2
  if den * Nat.pow 2 k.toNat ≤ num * Nat.pow 2 (-k).toNat then k else k - 1

/-- The number nearest to a quotient; beyond the largest number, an infinity. -/
def ofRatio (r : Ratio) : Binary64 :=
  if r.num == 0 then zero r.negative
  else
    let q := max (-1074) (floorLog2 r.num r.den - 52)
    let m := roundDiv (r.num * Nat.pow 2 (-q).toNat) (r.den * Nat.pow 2 q.toNat)
    ofMagnitude r.negative (min infinityMagnitude ((q + 1074).toNat * Nat.pow 2 52 + m))

/-- The number nearest to an integer. -/
def ofInt (n : Int) : Binary64 := ofRatio ⟨n < 0, n.natAbs, 1⟩

/-- The number nearest to `± digits · 10 ^ exponent`. Far beyond the range the powers are not formed. -/
def ofDecimal (negative : Bool) (digits : Nat) (exponent : Int) : Binary64 :=
  if digits == 0 then zero negative
  else if 400 < exponent then infinity negative
  else if exponent + (digits.log2 : Int) / 3 + 1 < -400 then zero negative
  else ofRatio ⟨negative, digits * Nat.pow 10 exponent.toNat, Nat.pow 10 (-exponent).toNat⟩

end Binary64

end PageInvalidation
