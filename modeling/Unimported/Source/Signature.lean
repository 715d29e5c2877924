/-
Signatures: the textual shapes by which exports and imports are recognised.

A signature is a short list of pieces, read from left to right against the text at one position:
fixed words, a run of blanks, a gap within the line, a quote, and the specifier that an import
names. A run of blanks is taken whole. Where a piece leaves a choice, the signature has a
preference (gap and specifier take as few characters as they can), and a choice that makes a later
piece fail is taken back. `Signature.matchHere?` yields the preferred match at the start of a
text, `Signature.find?` the leftmost one, and `Signature.captures` what all of them capture when
each search starts where the match before it ended.
-/
import Unimported.Text.Blank

set_option autoImplicit false

namespace Unimported.Source

/-- One piece of a signature. -/
inductive Piece where
  /-- One of some fixed words; the first that leads to a match is taken. -/
  | word (choices : List (List Char))
  /-- One or more blanks, all that there are. -/
  | blanks
  /-- Any characters of one line, as few as possible. -/
  | gap
  /-- A single or a double quote. -/
  | quote
  /-- One or more characters of one line, as few as possible; they are captured. -/
  | specifier
deriving DecidableEq, Repr

/-- A signature: pieces that follow each other without anything between them. -/
abbrev Signature := List Piece

/-- A match at the start of a text: what it captured, and the text behind it. -/
structure Hit where
  captured : List Char
  rest : List Char
deriving DecidableEq, Repr

/-- Whether `c` is a quote. -/
def isQuote (c : Char) : Bool := c == '\'' || c == '"'

/-! ## One piece

Each function reads one piece and hands what is left of the text to `next`, which stands for the
pieces behind it. -/

/-- The text behind `word`, if the text starts with it. -/
def afterWord? : List Char → List Char → Option (List Char)
  | [], text => some text
  | _ :: _, [] => none
  | w :: word, c :: text => if w = c then afterWord? word text else none

/-- Reads one of the words, the first that lets `next` succeed. -/
def readWord (next : List Char → Option Hit) : List (List Char) → List Char → Option Hit
  | [], _ => none
  | word :: others, text =>
    match (afterWord? word text).bind next with
    | some hit => some hit
    | none => readWord next others text

/-- Reads one or more blanks, all that there are. -/
def readBlanks (next : List Char → Option Hit) : List Char → Option Hit
  | [] => none
  | c :: text => if Text.isBlank c then next (text.dropWhile Text.isBlank) else none

/-- Reads any number of characters of the line, as few as possible. -/
def readGap (next : List Char → Option Hit) : List Char → Option Hit
  | [] => next []
  | c :: text =>
    match next (c :: text) with
    | some hit => some hit
    | none => if c = '\n' then none else readGap next text

/-- Reads a quote. -/
def readQuote (next : List Char → Option Hit) : List Char → Option Hit
  | [] => none
  | c :: text => if isQuote c then next text else none

/-- Reads one or more characters of the line, as few as possible, and captures them. -/
def readSpecifier (next : List Char → Option Hit) : List Char → Option Hit
  | [] => none
  | c :: text =>
    if c = '\n' then none
    else
      match next text with
      | some hit => some ⟨[c], hit.rest⟩
      | none => (readSpecifier next text).map fun hit => ⟨c :: hit.captured, hit.rest⟩

/-! ## Whole signatures -/

namespace Signature

/-- The preferred match of the signature at the start of the text. -/
def matchHere? : Signature → List Char → Option Hit
  | [], text => some ⟨[], text⟩
  | .word choices :: next, text => readWord (matchHere? next) choices text
  | .blanks :: next, text => readBlanks (matchHere? next) text
  | .gap :: next, text => readGap (matchHere? next) text
  | .quote :: next, text => readQuote (matchHere? next) text
  | .specifier :: next, text => readSpecifier (matchHere? next) text

/-- The match of the signature that starts leftmost in the text. -/
def find? (signature : Signature) : List Char → Option Hit
  | [] => signature.matchHere? []
  | c :: text =>
    match signature.matchHere? (c :: text) with
    | some hit => some hit
    | none => find? signature text

/-- Whether the signature matches anywhere in the text. -/
def occursIn (signature : Signature) (text : List Char) : Bool :=
  (signature.find? text).isSome

/-- The captures of at most `fuel` successive matches. -/
def capturesUpTo (signature : Signature) : Nat → List Char → List (List Char)
  | 0, _ => []
  | fuel + 1, text =>
    match signature.find? text with
    | none => []
    | some hit => hit.captured :: capturesUpTo signature fuel hit.rest

/-- The captures of all successive matches, each searched from where the one before it ended.
A match of a signature that starts with a nonempty word is not empty, so there are no more of
them than characters. -/
def captures (signature : Signature) (text : List Char) : List (List Char) :=
  signature.capturesUpTo text.length text

end Signature

end Unimported.Source
