import PageInvalidation.Binary64.Arithmetic
import PageInvalidation.Json.Basic

/-! # Equality of values

Values are equal as the domain compares them: numbers by value across integers, floating-point numbers
and truth values (which count as 0 and 1), lists item by item, objects by the values of their members in
any order. A number that is undefined equals nothing. -/

namespace PageInvalidation.Json

mutual

/-- Whether two values are equal. -/
def same : Value → Value → Bool
  | .null, .null => true
  | .bool a, .bool b => a == b
  | .bool a, .int n => n == if a then 1 else 0
  | .bool a, .float x => x.equalsInt (if a then 1 else 0)
  | .int n, .bool b => n == if b then 1 else 0
  | .int n, .int m => n == m
  | .int n, .float x => x.equalsInt n
  | .float x, .bool b => x.equalsInt (if b then 1 else 0)
  | .float x, .int n => x.equalsInt n
  | .float x, .float y => x.same y
  | .str s, .str t => s == t
  | .arr a, .arr b => sameItems a b
  | .obj a, .obj b => a.length == b.length && membersIn a b
  | _, _ => false

/-- Whether two lists are equal item by item. -/
def sameItems : List Value → List Value → Bool
  | [], [] => true
  | v :: rest, w :: rest' => same v w && sameItems rest rest'
  | _, _ => false

/-- Whether each member has an equal one among others. -/
def membersIn : Members → Members → Bool
  | [], _ => true
  | (k, v) :: rest, others =>
    (match member? k others with
      | some w => same v w
      | none => false) && membersIn rest others

end

end PageInvalidation.Json
