/-
UTF-8: bytes to characters and back.

Bytes are read one at a time. Between two bytes the reader is either at a boundary or inside a
sequence, and then it knows which range the next byte must lie in. A byte outside that range
ends the sequence, which counts as malformed as a whole, and is looked at again as the first
byte of the next one. So each malformed piece is as long as a well-formed sequence can still be
extended, and no longer: `lossy` puts one replacement character in its place, and `decode?`
refuses the bytes altogether.
-/

set_option autoImplicit false

namespace Unimported.Text

/-- A byte. -/
abbrev Byte := UInt8

namespace Utf8

/-! ## Reading -/

/-- What has been read of an unfinished sequence: the bits of its scalar value, the number of
bytes still missing, and the range in which the next one must lie. -/
structure Open where
  bits : Nat
  missing : Nat
  low : Byte
  high : Byte
deriving DecidableEq, Repr

/-- What a byte at a boundary can be. -/
inductive Lead where
  | ascii
  | opens (o : Open)
  | malformed
deriving DecidableEq, Repr

/-- Classifies a byte at a boundary. The ranges for the second byte leave out overlong forms,
surrogates and values above the last code point. -/
def Lead.of (b : Byte) : Lead :=
  if b < 0x80 then .ascii
  else if b < 0xC2 then .malformed
  else if b < 0xE0 then .opens ⟨b.toNat - 0xC0, 1, 0x80, 0xBF⟩
  else if b = 0xE0 then .opens ⟨0, 2, 0xA0, 0xBF⟩
  else if b = 0xED then .opens ⟨0xD, 2, 0x80, 0x9F⟩
  else if b < 0xF0 then .opens ⟨b.toNat - 0xE0, 2, 0x80, 0xBF⟩
  else if b = 0xF0 then .opens ⟨0, 3, 0x90, 0xBF⟩
  else if b < 0xF4 then .opens ⟨b.toNat - 0xF0, 3, 0x80, 0xBF⟩
  else if b = 0xF4 then .opens ⟨4, 3, 0x80, 0x8F⟩
  else .malformed

/-- One unit of decoded text: a character, or a malformed piece of the input. -/
inductive Piece where
  | char (c : Char)
  | malformed
deriving DecidableEq, Repr

/-- Reads the byte `b` at a boundary: the pieces that it completes, and the state after it. -/
def start (b : Byte) : List Piece × Option Open :=
  match Lead.of b with
  | .ascii => ([.char (Char.ofNat b.toNat)], none)
  | .opens o => ([], some o)
  | .malformed => ([.malformed], none)

/-- Reads the byte `b` in any state: the pieces that it completes, and the state after it. -/
def step : Option Open → Byte → List Piece × Option Open
  | none, b => start b
  | some o, b =>
    if o.low ≤ b && b ≤ o.high then
      let bits := o.bits * 64 + b.toNat % 64
      if o.missing ≤ 1 then ([.char (Char.ofNat bits)], none)
      else ([], some ⟨bits, o.missing - 1, 0x80, 0xBF⟩)
    else
      let next := start b
      (.malformed :: next.1, next.2)

/-- The pieces of the bytes, read from the given state. -/
def piecesFrom : Option Open → List Byte → List Piece
  | none, [] => []
  | some _, [] => [.malformed]
  | state, b :: rest => (step state b).1 ++ piecesFrom (step state b).2 rest

/-- The pieces of the bytes. -/
def pieces (bytes : List Byte) : List Piece := piecesFrom none bytes

/-- The character that stands for a malformed piece, U+FFFD. -/
def replacement : Char := '\uFFFD'

/-- The text of a piece, a malformed one replaced. -/
def Piece.toChar : Piece → Char
  | .char c => c
  | .malformed => replacement

/-- The character of a well-formed piece. -/
def Piece.char? : Piece → Option Char
  | .char c => some c
  | .malformed => none

/-- The text of the bytes, with one replacement character for each malformed piece. -/
def lossy (bytes : List Byte) : List Char := (pieces bytes).map Piece.toChar

/-- The text of the bytes, if they are well-formed. -/
def decode? (bytes : List Byte) : Option (List Char) := (pieces bytes).mapM Piece.char?

/-- Whether the bytes are well-formed. -/
def isValid (bytes : List Byte) : Bool := (pieces bytes).all fun p => p != .malformed

/-! ## Writing -/

/-- The bytes of a character. -/
def encodeChar (c : Char) : List Byte :=
  let n := c.toNat
  let tail (k : Nat) : Byte := UInt8.ofNat (0x80 + n / Nat.pow 64 k % 64)
  if n < 0x80 then [UInt8.ofNat n]
  else if n < 0x800 then [UInt8.ofNat (0xC0 + n / 64), tail 0]
  else if n < 0x10000 then [UInt8.ofNat (0xE0 + n / Nat.pow 64 2), tail 1, tail 0]
  else [UInt8.ofNat (0xF0 + n / Nat.pow 64 3), tail 2, tail 1, tail 0]

/-- The bytes of a text. -/
def encode (text : List Char) : List Byte := text.flatMap encodeChar

/-- The bytes of a string. -/
def ofString (s : String) : List Byte := encode s.toList

/-- The string of the bytes, malformed pieces replaced. -/
def toStringLossy (bytes : List Byte) : String := String.ofList (lossy bytes)

example : decode? (encode ['a', 'é', '€', '😀']) = some ['a', 'é', '€', '😀'] := by decide
example : lossy [0xE2, 0x82, 0x41, 0xFF, 0xED, 0xA0, 0x80]
    = ['\uFFFD', 'A', '\uFFFD', '\uFFFD', '\uFFFD', '\uFFFD'] := by decide

end Utf8

end Unimported.Text
