import PageInvalidation.Binary64.Basic

/-! # Arithmetic on binary floating-point numbers

Sums, products, quotients and comparisons. Each operation on finite numbers is the exact one on their
ratios, rounded once; infinities and undefined numbers are treated before. -/

namespace PageInvalidation

namespace Ratio

/-- The numerator with its sign. -/
def signedNum (r : Ratio) : Int := if r.negative then -r.num else r.num

end Ratio

namespace Binary64

/-- The undefined result of an operation on defined numbers: the one with the sign bit set. -/
def undefined : Binary64 := ofMagnitude true (infinityMagnitude + Nat.pow 2 51)

/-- The number with the opposite sign. -/
def neg (x : Binary64) : Binary64 := ofMagnitude (!x.isNegative) x.magnitude

/-- The sum of two ratios; a zero sum is negative only if both are. -/
def addRatio (a b : Ratio) : Ratio :=
  let num := a.signedNum * b.den + b.signedNum * a.den
  ⟨if num == 0 then a.negative && b.negative else num < 0, num.natAbs, a.den * b.den⟩

/-- The sum. -/
def add (x y : Binary64) : Binary64 :=
  if x.isNaN then x
  else if y.isNaN then y
  else
    match x.ratio?, y.ratio? with
    | some a, some b => ofRatio (addRatio a b)
    | none, some _ => x
    | some _, none => y
    | none, none => if x.isNegative == y.isNegative then x else undefined

/-- The difference. -/
def sub (x y : Binary64) : Binary64 := if y.isNaN && !x.isNaN then y else add x (neg y)

/-- The product. -/
def mul (x y : Binary64) : Binary64 :=
  if x.isNaN then x
  else if y.isNaN then y
  else
    let negative := x.isNegative != y.isNegative
    match x.ratio?, y.ratio? with
    | some a, some b => ofRatio ⟨negative, a.num * b.num, a.den * b.den⟩
    | _, _ => if x.isZero || y.isZero then undefined else infinity negative

/-- The quotient. -/
def div (x y : Binary64) : Binary64 :=
  if x.isNaN then x
  else if y.isNaN then y
  else
    let negative := x.isNegative != y.isNegative
    match x.ratio?, y.ratio? with
    | some a, some b =>
      if b.num == 0 then if a.num == 0 then undefined else infinity negative
      else ofRatio ⟨negative, a.num * b.den, a.den * b.num⟩
    | some _, none => zero negative
    | none, some _ => infinity negative
    | none, none => undefined

instance : Add Binary64 := ⟨add⟩

instance : Sub Binary64 := ⟨sub⟩

instance : Mul Binary64 := ⟨mul⟩

instance : Div Binary64 := ⟨div⟩

/-! ### Order -/

/-- The place of a number in the order, the two zeros in one place. -/
def rank (x : Binary64) : Int := if x.isNegative then -x.magnitude else x.magnitude

/-- Less than; an undefined number is in no relation. -/
def lt (x y : Binary64) : Bool := !x.isNaN && !y.isNaN && x.rank < y.rank

/-- At most; an undefined number is in no relation. -/
def le (x y : Binary64) : Bool := !x.isNaN && !y.isNaN && x.rank ≤ y.rank

/-- Equal in value; an undefined number is not equal even to itself. -/
def same (x y : Binary64) : Bool := !x.isNaN && !y.isNaN && x.rank == y.rank

/-! ### Integers -/

/-- The integer part of a finite number, its fraction dropped. -/
def truncate? (x : Binary64) : Option Int :=
  x.ratio?.map fun r => signedTrunc r
where
  /-- The quotient rounded toward zero. -/
  signedTrunc (r : Ratio) : Int := if r.negative then -(r.num / r.den : Nat) else (r.num / r.den : Nat)

/-- Whether a number is finite and without a fraction. -/
def isIntegral (x : Binary64) : Bool :=
  match x.ratio? with
  | some r => r.num % r.den == 0
  | none => false

/-- Whether a number is exactly an integer. -/
def equalsInt (x : Binary64) (n : Int) : Bool := x.isIntegral && x.truncate? == some n

end Binary64

end PageInvalidation
