import PageInvalidation.Text.CodeText
import PageInvalidation.Text.Hex

/-! # UTF-8

Writing and reading of UTF-8. Reading cuts the bytes into *pieces*, each a character or a maximal
ill-formed part: the longest start of a well-formed sequence that the bytes hold, or else one byte.
A strict reader fails at the first ill-formed part, a lossy one replaces each by U+FFFD. -/

namespace PageInvalidation.Text.Utf8

/-! ### Writing -/

/-- The bytes of a character. -/
def encodeChar (c : Char) : List UInt8 :=
  let n := c.toNat
  let tail (shift : Nat) : UInt8 := UInt8.ofNat (0x80 + n / Nat.pow 2 shift % 64)
  if n < 0x80 then [UInt8.ofNat n]
  else if n < 0x800 then [UInt8.ofNat (0xc0 + n / 64), tail 0]
  else if n < 0x10000 then [UInt8.ofNat (0xe0 + n / 4096), tail 6, tail 0]
  else [UInt8.ofNat (0xf0 + n / 262144), tail 12, tail 6, tail 0]

/-- The bytes of a text. -/
def encode (s : List Char) : List UInt8 := s.flatMap encodeChar

/-- The number of bytes of a text. -/
def size (s : List Char) : Nat := (encode s).length

/-! ### Reading -/

/-- Why bytes are ill-formed. -/
inductive Defect where
  /-- A byte that starts no sequence. -/
  | start
  /-- A sequence that the next byte does not continue. -/
  | continuation
  /-- A sequence that the end of the input cuts off. -/
  | truncated
  deriving DecidableEq, Repr

/-- What stands at one place of the input. -/
inductive Piece where
  | char (c : Char)
  | illFormed (bytes : List UInt8) (defect : Defect)
  deriving Repr

/-- What a first byte announces: its share of the character's number, how many bytes follow, and
the range of the first of them. -/
structure Lead where
  value : Nat
  follow : Nat
  low : Nat
  high : Nat

/-- The announcement of a first byte. -/
def lead? (b : UInt8) : Option Lead :=
  let n := b.toNat
  if n < 0x80 then some ⟨n, 0, 0x80, 0xbf⟩
  else if n < 0xc2 then none
  else if n < 0xe0 then some ⟨n - 0xc0, 1, 0x80, 0xbf⟩
  else if n < 0xf0 then
    some ⟨n - 0xe0, 2, if n = 0xe0 then 0xa0 else 0x80, if n = 0xed then 0x9f else 0xbf⟩
  else if n < 0xf5 then
    some ⟨n - 0xf0, 3, if n = 0xf0 then 0x90 else 0x80, if n = 0xf4 then 0x8f else 0xbf⟩
  else none

/-- Where the reader stands: between characters, or inside a sequence, with the number read so far,
the number of bytes still due, the range of the next one, and the bytes read, latest first. -/
inductive State where
  | between
  | inside (value due low high : Nat) (seen : List UInt8)
  deriving Repr

/-- A byte where a character may start. -/
def start (b : UInt8) : State × List Piece :=
  match lead? b with
  | none => (.between, [.illFormed [b] .start])
  | some lead =>
    if lead.follow = 0 then (.between, [.char (Char.ofNat lead.value)])
    else (.inside lead.value lead.follow lead.low lead.high [b], [])

/-- One byte further: the new state, and the pieces that end here. -/
def step : State → UInt8 → State × List Piece
  | .between, b => start b
  | .inside value due low high seen, b =>
    if low ≤ b.toNat ∧ b.toNat ≤ high then
      let value' := value * 64 + (b.toNat - 0x80)
      if due ≤ 1 then (.between, [.char (Char.ofNat value')])
      else (.inside value' (due - 1) 0x80 0xbf (b :: seen), [])
    else
      let (state, pieces) := start b
      (state, .illFormed seen.reverse .continuation :: pieces)

/-- The piece that the end of the input closes. -/
def finish : State → List Piece
  | .between => []
  | .inside _ _ _ _ seen => [.illFormed seen.reverse .truncated]

/-- The pieces of the input from a state on. -/
def piecesFrom : State → List UInt8 → List Piece
  | state, [] => finish state
  | state, b :: rest =>
    let (state', pieces) := step state b
    pieces ++ piecesFrom state' rest

/-- The pieces of the input. -/
def pieces (bytes : List UInt8) : List Piece := piecesFrom .between bytes

/-- An ill-formed part and its place in the input. -/
structure Error where
  position : Nat
  bytes : List UInt8
  defect : Defect
  deriving DecidableEq, Repr

/-- The words for a defect. -/
def Defect.reason : Defect → String
  | .start => "invalid start byte"
  | .continuation => "invalid continuation byte"
  | .truncated => "unexpected end of data"

/-- The text of an error. -/
def Error.message (e : Error) : String :=
  match e.bytes with
  | [b] =>
    "'utf-8' codec can't decode byte 0x" ++ String.ofList (hexDigits 2 b.toNat) ++ " in position " ++
      toString e.position ++ ": " ++ e.defect.reason
  | bytes =>
    "'utf-8' codec can't decode bytes in position " ++ toString e.position ++ "-" ++
      toString (e.position + bytes.length - 1) ++ ": " ++ e.defect.reason

/-- The characters of pieces that start at a position, up to the first ill-formed part. -/
def charsFrom (position : Nat) : List Piece → Except Error (List Char)
  | [] => .ok []
  | .char c :: rest => (charsFrom (position + (encodeChar c).length) rest).map (c :: ·)
  | .illFormed bytes defect :: _ => .error ⟨position, bytes, defect⟩

/-- Reads well-formed bytes. -/
def decode (bytes : List UInt8) : Except Error (List Char) := charsFrom 0 (pieces bytes)

/-- The character that a lossy reader takes a piece for. -/
def Piece.replaced : Piece → Char
  | .char c => c
  | .illFormed _ _ => '\ufffd'

/-- Reads any bytes; an ill-formed part becomes U+FFFD. -/
def decodeLossy (bytes : List UInt8) : List Char := (pieces bytes).map Piece.replaced

/-! ### Texts that cannot be written -/

/-- Lone surrogates in a text that is to be written: the place of the first and how many follow one
another, with the first of them. -/
structure Unwritable where
  position : Nat
  count : Nat
  first : CodePoint
  deriving DecidableEq, Repr

/-- How many lone surrogates the text starts with. -/
def loneCount (t : CodeText) : Nat := (t.takeWhile fun p => p.toChar?.isNone).length

/-- The words for lone surrogates that cannot be written. -/
def Unwritable.message (u : Unwritable) : String :=
  if u.count = 1 then
    "'utf-8' codec can't encode character '\\u" ++ String.ofList (hexDigits 4 u.first.toNat) ++
      "' in position " ++ toString u.position ++ ": surrogates not allowed"
  else
    "'utf-8' codec can't encode characters in position " ++ toString u.position ++ "-" ++
      toString (u.position + u.count - 1) ++ ": surrogates not allowed"

/-- The characters of a text that starts at a position, if it can be written. -/
def writableFrom (position : Nat) : CodeText → Except Unwritable (List Char)
  | [] => .ok []
  | .scalar c :: rest => (writableFrom (position + 1) rest).map (c :: ·)
  | .lone half :: rest => .error ⟨position, loneCount (.lone half :: rest), .lone half⟩

/-- The characters of a text that can be written. -/
def writable (t : CodeText) : Except Unwritable (List Char) := writableFrom 0 t

end PageInvalidation.Text.Utf8
