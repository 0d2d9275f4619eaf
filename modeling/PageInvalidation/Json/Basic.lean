import PageInvalidation.Binary64.Basic
import PageInvalidation.Keyed
import PageInvalidation.Text.CodeText

/-! # JSON values

Values of JSON texts. Integers are unbounded and apart from floating-point numbers, and an object keeps
its members in order.

Members of an object may have the same name. The last of them counts, at the place of the first:
`member?` finds it, and `withoutRepeats` leaves it alone. -/

namespace PageInvalidation

/-- A JSON value. -/
inductive Json where
  | null
  | bool (b : Bool)
  | int (n : Int)
  | float (x : Binary64)
  | str (s : Text.CodeText)
  | arr (items : List Json)
  | obj (members : List (Text.CodeText × Json))
  deriving Repr, Inhabited

/-- A value of unknown kind. -/
abbrev Value := Json

/-- The members of an object, of which several may have the same name. -/
abbrev Members := List (Text.CodeText × Value)

namespace Json

/-- The value of the last member of an object with a name. -/
def member? (k : Text.CodeText) (members : Members) : Option Value :=
  (members.reverse.find? fun m => m.1 = k).map Prod.snd

/-! ### Depth -/

mutual

/-- How many values stand inside each other, the outermost and the innermost counted. -/
def depth : Value → Nat
  | .arr items => itemsDepth items + 1
  | .obj members => membersDepth members + 1
  | _ => 1

/-- The depth of the deepest item. -/
def itemsDepth : List Value → Nat
  | [] => 0
  | v :: rest => max v.depth (itemsDepth rest)

/-- The depth of the deepest value of members. -/
def membersDepth : Members → Nat
  | [] => 0
  | (_, v) :: rest => max v.depth (membersDepth rest)

end

/-! ### Members with the same name -/

mutual

/-- A value in which no object has two members with the same name. -/
def withoutRepeats : Value → Value
  | .arr items => .arr (itemsWithoutRepeats items)
  | .obj members => .obj (distinctBy Prod.fst (membersWithoutRepeats members))
  | v => v

/-- Items in which no object has two members with the same name. -/
def itemsWithoutRepeats : List Value → List Value
  | [] => []
  | v :: rest => v.withoutRepeats :: itemsWithoutRepeats rest

/-- Members in whose values no object has two members with the same name. -/
def membersWithoutRepeats : Members → Members
  | [] => []
  | (k, v) :: rest => (k, v.withoutRepeats) :: membersWithoutRepeats rest

end

end Json

end PageInvalidation
