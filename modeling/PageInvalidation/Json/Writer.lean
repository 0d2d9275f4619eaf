import PageInvalidation.Binary64.Text
import PageInvalidation.Json.Basic
import PageInvalidation.Text.Hex

/-! # Writing JSON

The text of a JSON value under a `Layout`: what separates items and members, which characters of a text
are escaped, and how floating-point numbers look. Two layouts are in use: `compact` for the values of
published events, `ascii` for dead-letter records. -/

namespace PageInvalidation.Json

/-- How JSON is written. -/
structure Layout where
  /-- Stands between items. -/
  comma : List Char
  /-- Stands between the name and the value of a member. -/
  colon : List Char
  /-- Whether a character is written as a numeric escape. -/
  escapes : Char → Bool
  /-- A surrogate that stands alone, by its number. -/
  lone : Nat → List Char
  /-- How floating-point numbers look. -/
  numbers : Binary64.Style

/-- The escape of one UTF-16 unit. -/
def unitEscape (n : Nat) : List Char := '\\' :: 'u' :: Text.hexDigits 4 n

/-- The numeric escape of a character: one unit, or two beyond the first 65536 characters. -/
def numericEscape (c : Char) : List Char :=
  let n := c.toNat
  if n < 0x10000 then unitEscape n
  else unitEscape (0xd800 + (n - 0x10000) / 1024) ++ unitEscape (0xdc00 + (n - 0x10000) % 1024)

namespace Layout

/-- A character inside quotes. -/
def char (l : Layout) (c : Char) : List Char :=
  if c == '"' || c == '\\' then ['\\', c]
  else if c == '\x08' then ['\\', 'b']
  else if c == '\x0c' then ['\\', 'f']
  else if c == '\n' then ['\\', 'n']
  else if c == '\r' then ['\\', 'r']
  else if c == '\t' then ['\\', 't']
  else if l.escapes c then numericEscape c
  else [c]

/-- A code point inside quotes. -/
def point (l : Layout) : Text.CodePoint → List Char
  | .scalar c => l.char c
  | .lone half => l.lone (Text.CodePoint.lone half).toNat

/-- A text with its quotes. -/
def text (l : Layout) (s : Text.CodeText) : List Char := '"' :: s.flatMap l.point ++ ['"']

mutual

/-- The characters of a value. -/
def chars (l : Layout) : Value → List Char
  | .null => "null".toList
  | .bool true => "true".toList
  | .bool false => "false".toList
  | .int n => (toString n).toList
  | .float x => l.numbers.render x
  | .str s => l.text s
  | .arr items => '[' :: List.intercalate l.comma (l.items items) ++ [']']
  | .obj members => '\x7b' :: List.intercalate l.comma (l.members members) ++ ['\x7d']

/-- The characters of each item. -/
def items (l : Layout) : List Value → List (List Char)
  | [] => []
  | v :: rest => l.chars v :: l.items rest

/-- The characters of each member. -/
def members (l : Layout) : Members → List (List Char)
  | [] => []
  | (k, v) :: rest => (l.text k ++ l.colon ++ l.chars v) :: l.members rest

end

/-- The text of a value. -/
def write (l : Layout) (v : Value) : String := String.ofList (l.chars v)

end Layout

/-- No blanks, only control characters escaped, numbers from `0.00001` up to `1e+16` without an
exponent; numbers that are not finite become null, and each byte of a lone surrogate becomes U+FFFD. -/
def compact : Layout where
  comma := [',']
  colon := [':']
  escapes c := c.toNat < 0x20
  lone _ := ['\ufffd', '\ufffd', '\ufffd']
  numbers := ⟨-5, 16, 1, "null", "null", "null"⟩

/-- A blank after each comma and colon, everything beyond printable ASCII escaped, numbers from
`0.0001` up to `1e+16` without an exponent. -/
def ascii : Layout where
  comma := [',', ' ']
  colon := [':', ' ']
  escapes c := c.toNat < 0x20 || 0x7f ≤ c.toNat
  lone := unitEscape
  numbers := ⟨-4, 16, 2, "NaN", "Infinity", "-Infinity"⟩

end PageInvalidation.Json
