/-! # Blank characters

Two classes of blanks: Unicode's white space, and the same with the four information separators, which
separate words too. Texts are trimmed and cut into words by a class. -/

namespace PageInvalidation.Text

/-- Unicode's white space. -/
def isWhiteSpace (c : Char) : Bool :=
  let n := c.toNat
  (9 ≤ n && n ≤ 13) || n == 0x20 || n == 0x85 || n == 0xa0 || n == 0x1680 ||
    (0x2000 ≤ n && n ≤ 0x200a) || n == 0x2028 || n == 0x2029 || n == 0x202f || n == 0x205f ||
    n == 0x3000

/-- White space and the information separators U+001C to U+001F. -/
def isBlank (c : Char) : Bool :=
  isWhiteSpace c || (0x1c ≤ c.toNat && c.toNat ≤ 0x1f)

variable {α : Type} (p : α → Bool)

/-- A text without what is of a class at its two ends. -/
def trim (s : List α) : List α := ((s.dropWhile p).reverse.dropWhile p).reverse

/-- Adds a word to the words after it, unless it is empty. -/
def consWord (word : List α) (rest : List (List α)) : List (List α) :=
  if word.isEmpty then rest else word :: rest

/-- One step of the scan for words, from the end of the text: the word that is being read and the
words after it. -/
def wordStep (c : α) (state : List α × List (List α)) : List α × List (List α) :=
  if p c then ([], consWord state.1 state.2) else (c :: state.1, state.2)

/-- The longest runs without anything of a class. -/
def words (s : List α) : List (List α) :=
  let state := s.foldr (wordStep p) ([], [])
  consWord state.1 state.2

end PageInvalidation.Text
