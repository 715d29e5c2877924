/-
YAML text as a list of spots.

A spot is a character together with where it stands, since in YAML the column of a character
decides what it means. All line breaks but the two Unicode separators are the same, so they are
made line feeds beforehand. The list ends with a spot that holds the null character; no text has
this character, nor any other control character.
-/
import Unimported.Text.Blank

set_option autoImplicit false

namespace Unimported.Yaml

/-- Why a text is not YAML. -/
inductive Error where
  /-- A control character stands in the text. -/
  | controlCharacter
  /-- A character starts nothing that could stand here. -/
  | unexpectedCharacter
  /-- What has to be a key has no colon behind it. -/
  | missingColon
  /-- An entry of a sequence stands where none can. -/
  | misplacedEntry
  /-- A key stands where none can. -/
  | misplacedKey
  /-- A value stands where none can. -/
  | misplacedValue
  /-- A tab stands in place of indentation. -/
  | tabIndentation
  /-- A directive is malformed, unknown or repeated. -/
  | badDirective
  /-- The name of an anchor or alias is missing or runs on. -/
  | badAnchor
  /-- A tag is malformed. -/
  | badTag
  /-- A tag has a handle that no directive declares. -/
  | unknownHandle
  /-- A backslash is followed by something that it does not escape. -/
  | badEscape
  /-- A quoted scalar is not closed. -/
  | unclosedQuote
  /-- A document marker stands inside a quoted scalar. -/
  | markerInQuote
  /-- The first line of a block scalar is malformed. -/
  | badBlockHeader
  /-- A colon stands before a bracket, a brace or a comma. -/
  | misplacedColon
  /-- A node is missing or has the wrong beginning. -/
  | missingNode
  /-- A collection goes on with something that is none of its entries, or does not end. -/
  | badCollection
  /-- An alias names no anchor before it. -/
  | unknownAnchor
  /-- Directives are not followed by a document. -/
  | missingDocument
  /-- The text holds more than one document. -/
  | manyDocuments
deriving DecidableEq, Repr

/-- A character and where it stands. -/
structure Spot where
  char : Char
  line : Nat
  /-- The number of characters before it on its line. -/
  column : Nat
  /-- The number of bytes before it. -/
  index : Nat
deriving DecidableEq, Repr

/-- The rest of a text. -/
abbrev Spots := List Spot

/-! ## From text to spots -/

/-- Whether the character may stand in a text. -/
def isPrintable (c : Char) : Bool :=
  let n := c.toNat
  n == 0x09 || n == 0x0A || n == 0x0D || (0x20 ≤ n && n ≤ 0x7E) || n == 0x85
    || (0xA0 ≤ n && n ≤ 0xD7FF) || (0xE000 ≤ n && n ≤ 0xFFFD) || 0x10000 ≤ n

/-- Makes each line break that is no Unicode separator a line feed. -/
def unifyBreaks : List Char → List Char
  | [] => []
  | '\r' :: '\n' :: text => '\n' :: unifyBreaks text
  | c :: text => (if c = '\r' ∨ c = '\u0085' then '\n' else c) :: unifyBreaks text

/-- Whether the character is a line break. -/
def isBreak (c : Char) : Bool := c == '\n' || c == '\u2028' || c == '\u2029'

/-- The spots of a text whose first character stands at the given place. -/
def locate (line column index : Nat) : List Char → Spots
  | [] => [⟨'\x00', line, column, index⟩]
  | c :: text =>
    ⟨c, line, column, index⟩ ::
      if isBreak c then locate (line + 1) 0 (index + c.utf8Size) text
      else locate line (column + 1) (index + c.utf8Size) text

/-- The mark that may stand at the front of a line. It takes a column. -/
def byteOrderMark : Char := '\uFEFF'

/-- The spots of a text. -/
def spotsOf (text : List Char) : Except Error Spots :=
  if text.all isPrintable then .ok (locate 0 0 0 (unifyBreaks text)) else .error .controlCharacter

/-! ## Classes of characters -/

/-- Whether the character ends the text. -/
def isEnd (c : Char) : Bool := c == '\x00'

/-- Whether the character is a space or a tab. -/
def isSpace (c : Char) : Bool := c == ' ' || c == '\t'

/-- Whether the line ends before the character. -/
def isLineEnd (c : Char) : Bool := isBreak c || isEnd c

/-- Whether a word ends before the character. -/
def isWordEnd (c : Char) : Bool := isSpace c || isLineEnd c

/-- Whether the character may stand in the name of an anchor, a directive or a handle. -/
def isNameChar (c : Char) : Bool := c.isAlphanum || c == '_' || c == '-'

/-- Whether the character is a bracket, a brace or a comma. -/
def isFlowIndicator (c : Char) : Bool :=
  c == ',' || c == '[' || c == ']' || c == '\x7b' || c == '\x7d'

/-- The first character, or null. -/
def peek (s : Spots) : Char :=
  match s with
  | [] => '\x00'
  | spot :: _ => spot.char

/-- The character behind the first one, or null. -/
def peekSecond (s : Spots) : Char := peek s.tail

/-- Whether a document marker, three times the given character, stands at the front. -/
def isMarker (c : Char) (s : Spots) : Bool :=
  match s with
  | a :: b :: d :: rest =>
    a.column == 0 && a.char == c && b.char == c && d.char == c && isWordEnd (peek rest)
  | _ => false

/-- Whether a document marker of either kind stands at the front. -/
def atMarker (s : Spots) : Bool := isMarker '-' s || isMarker '.' s

/-- Cuts off the longest front of characters of a class. -/
def spanChars (p : Char → Bool) (s : Spots) : List Char × Spots :=
  ((s.takeWhile fun spot => p spot.char).map Spot.char, s.dropWhile fun spot => p spot.char)

/-- What is left behind the longest front of characters of a class. -/
def skipChars (p : Char → Bool) (s : Spots) : Spots := s.dropWhile fun spot => p spot.char

/-- What is left behind a byte order mark in the first column. -/
def skipMark : Spots → Spots
  | [] => []
  | spot :: rest => if spot.column = 0 ∧ spot.char = byteOrderMark then rest else spot :: rest

/-- What is left behind the rest of the line. -/
def skipLine (s : Spots) : Spots := skipChars (fun c => !isLineEnd c) s

end Unimported.Yaml
