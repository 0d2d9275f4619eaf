import PageInvalidation.Text.CodeText
import PageInvalidation.Text.Hex
import PageInvalidation.Text.Printable

/-! # Quoted texts

The quoted form of a text as error messages and log lines show it. Single quotes stand around it,
double quotes if it holds a single quote and no double one. The backslash, the quote in use and
every character that is not printable are escaped. -/

namespace PageInvalidation.Text.Quoted

/-- The quote that stands around a text. -/
def quoteOf (t : CodeText) : Char :=
  if t.contains (.scalar '\'') && !t.contains (.scalar '"') then '"' else '\''

/-- The escape of a code point by its number: two, four or eight digits, the fewest that fit. -/
def escapeNumber (n : Nat) : List Char :=
  if n < 0x100 then '\\' :: 'x' :: hexDigits 2 n
  else if n < 0x10000 then '\\' :: 'u' :: hexDigits 4 n
  else '\\' :: 'U' :: hexDigits 8 n

/-- A code point inside quotes. -/
def escape (quote : Char) : CodePoint → List Char
  | .lone half => escapeNumber (CodePoint.lone half).toNat
  | .scalar c =>
    if c == quote || c == '\\' then ['\\', c]
    else if c == '\n' then ['\\', 'n']
    else if c == '\r' then ['\\', 'r']
    else if c == '\t' then ['\\', 't']
    else if isPrintable c then [c]
    else escapeNumber c.toNat

/-- The quoted form of a list of code points. -/
def encode (t : CodeText) : List Char :=
  let quote := quoteOf t
  quote :: t.flatMap (escape quote) ++ [quote]

end PageInvalidation.Text.Quoted

namespace PageInvalidation.Text

/-- The quoted form of a text. -/
def quoted (t : CodeText) : String := String.ofList (Quoted.encode t)

end PageInvalidation.Text
