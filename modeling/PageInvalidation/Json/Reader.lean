import PageInvalidation.Json.Basic
import PageInvalidation.Text.CodeText
import PageInvalidation.Text.Hex
import PageInvalidation.Text.Numeral

/-! # Reading JSON

A reader that takes one character at a time. Its state holds the containers that are open around the
value being read, outermost last, and what may stand next; reading a text is a fold of `step` over its
characters, closed by `finish`. A container's own parts are collected latest first.

Besides the standard's grammar the reader takes the three words for numbers that are not finite. A
`Dialect` settles what readers differ in: the texts and the numbers they take and how deep values may
nest. An object keeps all its members, also those with the same name. -/

namespace PageInvalidation.Json

/-! ### The state -/

/-- What one reader of JSON decides. -/
structure Dialect where
  /-- Whether texts may hold lone surrogates. -/
  takesLone : Bool
  /-- How many containers may be nested. -/
  limit : Nat
  /-- Whether a container without parts counts. -/
  countsEmpty : Bool
  /-- Whether the limit on the digits of an integer holds for the digits before a point, too. -/
  boundsWhole : Bool

/-- Why a text is not read. -/
inductive ReadError where
  | malformed
  /-- The first value beyond the limit is a list, or else an object. -/
  | tooDeep (list : Bool)
  deriving DecidableEq, Repr

/-- An open container in which a value is being read. -/
inductive Frame where
  | list (items : List Value)
  | object (members : Members) (key : Text.CodeText)

/-- What a quoted text is read for. -/
inductive Role where
  | value
  | key (members : Members)

/-- Where the reader stands inside a quoted text: at a plain character, behind a backslash, or behind
some digits of a numeric escape. -/
inductive Escape where
  | plain
  | backslash
  | unit (count value : Nat)

/-- What may stand next. -/
inductive Mode where
  | value
  | firstItem
  | firstKey
  | key (members : Members)
  | colon (members : Members) (key : Text.CodeText)
  | afterItem (items : List Value)
  | afterMember (members : Members)
  | text (role : Role) (reversed : Text.CodeText) (escape : Escape)
  | atom (reversed : List Char)
  | done (v : Value)

/-- The open containers around the innermost one, and what may stand next. -/
structure State where
  stack : List Frame
  mode : Mode

/-- Before the first character. -/
def State.start : State := ⟨[], .value⟩

/-! ### Characters and words -/

/-- The blanks between the parts of a JSON text. -/
def isGap (c : Char) : Bool := c == ' ' || c == '\t' || c == '\n' || c == '\r'

/-- Whether a character can stand in a number or a word. -/
def isAtomChar (c : Char) : Bool :=
  !isGap c && !(c ∈ [',', ':', '"', '[', ']', '\x7b', '\x7d'])

/-- Whether a numeral is one of JSON: it has no plus sign, digits before the point and after it, and
a zero only as the single first digit. -/
def isNumber (n : Text.Numeral) : Bool :=
  n.sign != some '+' && !n.whole.isEmpty && (n.whole.length == 1 || n.whole.head? != some 0) &&
    n.fraction != some []

/-- The value of a numeral. The sign is not counted among its digits. -/
def ofNumeral (d : Dialect) (n : Text.Numeral) : Option Value :=
  if !isNumber n then none
  else if (n.isWhole || d.boundsWhole) && Text.maxDigits < n.whole.length then none
  else if n.isWhole then some (.int (Text.signed n.sign (Text.ofDigits n.whole)))
  else some (.float (.ofDecimal n.isNegative (Text.ofDigits n.digits) n.scale))

/-- The value of a number or a word. -/
def ofAtom (d : Dialect) (s : List Char) : Option Value :=
  if s = "null".toList then some .null
  else if s = "true".toList then some (.bool true)
  else if s = "false".toList then some (.bool false)
  else if s = "NaN".toList then some (.float .nan)
  else if s = "Infinity".toList then some (.float (.infinity false))
  else if s = "-Infinity".toList then some (.float (.infinity true))
  else (Text.Numeral.read? s).bind (ofNumeral d)

/-- The character of an escape with one letter. -/
def shortEscape? (c : Char) : Option Char :=
  if c == '"' || c == '\\' || c == '/' then some c
  else if c == 'b' then some '\x08'
  else if c == 'f' then some '\x0c'
  else if c == 'n' then some '\n'
  else if c == 'r' then some '\r'
  else if c == 't' then some '\t'
  else none

/-! ### One character -/

/-- A value is complete in its container. -/
def complete (stack : List Frame) (v : Value) : State :=
  match stack with
  | [] => ⟨[], .done v⟩
  | .list items :: rest => ⟨rest, .afterItem (v :: items)⟩
  | .object members key :: rest => ⟨rest, .afterMember ((key, v) :: members)⟩

/-- A container opens. -/
def openContainer (d : Dialect) (stack : List Frame) (list : Bool) :
    Except ReadError State :=
  if d.countsEmpty && d.limit ≤ stack.length then .error (.tooDeep list)
  else .ok ⟨stack, if list then .firstItem else .firstKey⟩

/-- A value starts. -/
def startValue (d : Dialect) (stack : List Frame) (c : Char) : Except ReadError State :=
  if !d.countsEmpty && d.limit < stack.length then .error (.tooDeep true)
  else if c == '[' then openContainer d stack true
  else if c == '\x7b' then openContainer d stack false
  else if c == '"' then .ok ⟨stack, .text .value [] .plain⟩
  else if isAtomChar c then .ok ⟨stack, .atom [c]⟩
  else .error .malformed

/-- A character where a value has ended. -/
def afterValue (s : State) (c : Char) : Except ReadError State :=
  if isGap c then .ok s
  else
    match s.mode with
    | .afterItem items =>
      if c == ',' then .ok ⟨.list items :: s.stack, .value⟩
      else if c == ']' then .ok (complete s.stack (.arr items.reverse))
      else .error .malformed
    | .afterMember members =>
      if c == ',' then .ok ⟨s.stack, .key members⟩
      else if c == '\x7d' then .ok (complete s.stack (.obj members.reverse))
      else .error .malformed
    | _ => .error .malformed

/-- A quoted text is complete. -/
def closeText (d : Dialect) (stack : List Frame) (role : Role) (reversed : Text.CodeText) :
    Except ReadError State :=
  let t := reversed.reverse
  if d.takesLone || Text.CodeText.isScalar t then
    match role with
    | .value => .ok (complete stack (.str t))
    | .key members => .ok ⟨stack, .colon members t⟩
  else .error .malformed

/-- A character inside a quoted text. -/
def textStep (d : Dialect) (stack : List Frame) (role : Role) (reversed : Text.CodeText)
    (escape : Escape) (c : Char) : Except ReadError State :=
  match escape with
  | .plain =>
    if c == '"' then closeText d stack role reversed
    else if c == '\\' then .ok ⟨stack, .text role reversed .backslash⟩
    else if c.toNat < 0x20 then .error .malformed
    else .ok ⟨stack, .text role (.scalar c :: reversed) .plain⟩
  | .backslash =>
    if c == 'u' then .ok ⟨stack, .text role reversed (.unit 0 0)⟩
    else
      match shortEscape? c with
      | some e => .ok ⟨stack, .text role (.scalar e :: reversed) .plain⟩
      | none => .error .malformed
  | .unit count value =>
    match Text.hexValue? c with
    | none => .error .malformed
    | some h =>
      let value := 16 * value + h
      if count < 3 then .ok ⟨stack, .text role reversed (.unit (count + 1) value)⟩
      else .ok ⟨stack, .text role (Text.CodeText.pushEscaped reversed (.ofUnit value)) .plain⟩

/-- A number or a word is complete. -/
def closeAtom (d : Dialect) (stack : List Frame) (reversed : List Char) :
    Except ReadError State :=
  match ofAtom d reversed.reverse with
  | some v => .ok (complete stack v)
  | none => .error .malformed

/-- One character further. -/
def step (d : Dialect) (s : State) (c : Char) : Except ReadError State :=
  match s.mode with
  | .text role reversed escape => textStep d s.stack role reversed escape c
  | .atom reversed =>
    if isAtomChar c then .ok ⟨s.stack, .atom (c :: reversed)⟩
    else do afterValue (← closeAtom d s.stack reversed) c
  | .value => if isGap c then .ok s else startValue d s.stack c
  | .firstItem =>
    if isGap c then .ok s
    else if c == ']' then .ok (complete s.stack (.arr []))
    else startValue d (.list [] :: s.stack) c
  | .firstKey =>
    if isGap c then .ok s
    else if c == '\x7d' then .ok (complete s.stack (.obj []))
    else if c == '"' then .ok ⟨s.stack, .text (.key []) [] .plain⟩
    else .error .malformed
  | .key members =>
    if isGap c then .ok s
    else if c == '"' then .ok ⟨s.stack, .text (.key members) [] .plain⟩
    else .error .malformed
  | .colon members key =>
    if isGap c then .ok s
    else if c == ':' then .ok ⟨.object members key :: s.stack, .value⟩
    else .error .malformed
  | .afterItem _ | .afterMember _ | .done _ => afterValue s c

/-- The value at the end of the text. -/
def finish (d : Dialect) (s : State) : Except ReadError Value :=
  match s.mode with
  | .done v => .ok v
  | .atom reversed =>
    match s.stack, ofAtom d reversed.reverse with
    | [], some v => .ok v
    | _, _ => .error .malformed
  | _ => .error .malformed

/-- The value that a text writes. -/
def read (d : Dialect) (s : List Char) : Except ReadError Value := do
  finish d (← s.foldlM (step d) .start)

/-! ### Dialects -/

/-- No lone surrogates, and at most `limit` nested containers that are not empty. -/
def strict (limit : Nat) : Dialect := ⟨false, limit, false, true⟩

/-- Any texts, and at most `limit` nested containers. -/
def lenient (limit : Nat) : Dialect := ⟨true, limit, true, false⟩

end PageInvalidation.Json
