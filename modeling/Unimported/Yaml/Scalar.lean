/-
Scalars: plain, quoted and block.

Within a scalar a single line break is folded into a space, and of several the first is dropped;
only block scalars of the literal style keep them all. Blanks around folded breaks are dropped.
-/
import Unimported.Yaml.Spot

set_option autoImplicit false

namespace Unimported.Yaml

/-- How a scalar was written. -/
inductive Style where
  | plain
  | singleQuoted
  | doubleQuoted
  | literal
  | folded
deriving DecidableEq, Repr

/-! ## Gaps between words -/

/-- The blanks and line breaks between two words. -/
structure Gap where
  /-- The blanks before the first line break, the latest first. -/
  blanks : List Char
  /-- Whether the line was left. -/
  broken : Bool
  /-- The first line break, unless it was escaped. -/
  first : Option Char
  /-- The further line breaks, the latest first. -/
  more : List Char

namespace Gap

/-- No gap. -/
def empty : Gap := ⟨[], false, none, []⟩

/-- A line that ends in an escaped line break. -/
def escaped : Gap := ⟨[], true, none, []⟩

/-- Whether there is nothing between the words. -/
def isEmpty (g : Gap) : Bool := g.blanks.isEmpty && !g.broken

/-- Adds a blank; after a line break it says nothing. -/
def addBlank (g : Gap) (c : Char) : Gap :=
  if g.broken then g else { g with blanks := c :: g.blanks }

/-- Adds a line break. -/
def addBreak (g : Gap) (c : Char) : Gap :=
  if g.broken then { g with more := c :: g.more } else ⟨[], true, some c, []⟩

/-- What the gap contributes to the scalar, the latest first. -/
def folded (g : Gap) : List Char :=
  if !g.broken then g.blanks
  else if g.first = some '\n' then if g.more.isEmpty then [' '] else g.more
  else g.more ++ g.first.toList

end Gap

/-- A scalar that has been read. -/
structure Scanned where
  value : List Char
  /-- The last thing read was a line break and not a word. -/
  atNewLine : Bool
  rest : Spots

/-! ## Plain scalars -/

/-- Whether a plain scalar ends at the front of the text, where no blank stands: before the end of
the text, before a word that is not indented enough, and before a marker or a comment. -/
def endsBeforeWord (inFlow : Bool) (indent : Nat) (read : List Char) (gap : Gap) (spot : Spot)
    (rest : Spots) : Bool :=
  isEnd spot.char || (!gap.isEmpty && !inFlow && spot.column < indent)
    || ((read.isEmpty || !gap.isEmpty) && (atMarker (spot :: rest) || spot.char == '#'))

/-- Reads a plain scalar. Outside brackets its lines must be indented by `indent` columns. -/
def scanPlain (inFlow : Bool) (indent : Nat) (read : List Char) (gap : Gap) :
    Spots → Except Error Scanned
  | [] => .ok ⟨read.reverse, gap.broken, []⟩
  | spot :: rest =>
    let c := spot.char
    if isSpace c then
      if gap.broken && spot.column < indent && c == '\t' then .error .tabIndentation
      else scanPlain inFlow indent read (gap.addBlank c) rest
    else if isBreak c then scanPlain inFlow indent read (gap.addBreak c) rest
    else if endsBeforeWord inFlow indent read gap spot rest then
      .ok ⟨read.reverse, gap.broken, spot :: rest⟩
    else if inFlow && c == ':' && (isFlowIndicator (peek rest) || peek rest == '?') then
      .error .misplacedColon
    else if (c == ':' && isWordEnd (peek rest)) || (inFlow && isFlowIndicator c) then
      .ok ⟨read.reverse, gap.broken, spot :: rest⟩
    else scanPlain inFlow indent (c :: (gap.folded ++ read)) .empty rest

/-! ## Quoted scalars -/

/-- What the reader of a quoted scalar is in the middle of. -/
inductive QuoteMode where
  /-- Text. -/
  | text
  /-- A quote was read that either ends the scalar or is the first of two. -/
  | quote
  /-- A backslash was read. -/
  | escape
  /-- So many hexadecimal digits are still to come. -/
  | digits (missing : Nat) (value : Nat)
deriving DecidableEq, Repr

/-- The characters that a backslash and a letter stand for. -/
def simpleEscapes : List (Char × Char) :=
  [('0', '\x00'), ('a', '\x07'), ('b', '\x08'), ('t', '\t'), ('\t', '\t'), ('n', '\n'),
   ('v', '\x0B'), ('f', '\x0C'), ('r', '\r'), ('e', '\x1B'), (' ', ' '), ('"', '"'), ('/', '/'),
   ('\\', '\\'), ('N', '\u0085'), ('_', '\u00A0'), ('L', '\u2028'), ('P', '\u2029')]

/-- The numbers of digits behind a backslash and a letter. -/
def digitEscapes : List (Char × Nat) := [('x', 2), ('u', 4), ('U', 8)]

/-- The value of a hexadecimal digit. -/
def hexValue? (c : Char) : Option Nat :=
  if '0' ≤ c ∧ c ≤ '9' then some (c.toNat - '0'.toNat)
  else if 'a' ≤ c ∧ c ≤ 'f' then some (c.toNat - 'a'.toNat + 10)
  else if 'A' ≤ c ∧ c ≤ 'F' then some (c.toNat - 'A'.toNat + 10)
  else none

/-- The character with this code point, if it is no surrogate and not too large. -/
def charOfNat? (n : Nat) : Option Char :=
  if n < 0xD800 ∨ (0xE000 ≤ n ∧ n ≤ 0x10FFFF) then some (Char.ofNat n) else none

/-- Reads a quoted scalar behind its first quote. -/
def scanQuoted (single : Bool) (mode : QuoteMode) (read : List Char) (gap : Gap) :
    Spots → Except Error Scanned
  | [] => .error .unclosedQuote
  | spot :: rest =>
    let c := spot.char
    match mode with
    | .quote =>
      if c = '\'' then scanQuoted single .text ('\'' :: read) .empty rest
      else .ok ⟨read.reverse, false, spot :: rest⟩
    | .escape =>
      if isBreak c then scanQuoted single .text read .escaped rest
      else
        match simpleEscapes.lookup c, digitEscapes.lookup c with
        | some e, _ => scanQuoted single .text (e :: read) .empty rest
        | none, some n => scanQuoted single (.digits n 0) read .empty rest
        | none, none => .error .badEscape
    | .digits missing value =>
      match hexValue? c with
      | none => .error .badEscape
      | some d =>
        if missing ≤ 1 then
          match charOfNat? (value * 16 + d) with
          | none => .error .badEscape
          | some e => scanQuoted single .text (e :: read) .empty rest
        else scanQuoted single (.digits (missing - 1) (value * 16 + d)) read gap rest
    | .text =>
      if atMarker (spot :: rest) then .error .markerInQuote
      else if isEnd c then .error .unclosedQuote
      else if isSpace c then scanQuoted single .text read (gap.addBlank c) rest
      else if isBreak c then scanQuoted single .text read (gap.addBreak c) rest
      else
        let read := gap.folded ++ read
        if single then
          if c = '\'' then scanQuoted single .quote read .empty rest
          else scanQuoted single .text (c :: read) .empty rest
        else if c = '"' then .ok ⟨read.reverse, false, rest⟩
        else if c = '\\' then scanQuoted single .escape read .empty rest
        else scanQuoted single .text (c :: read) .empty rest

/-! ## Block scalars -/

/-- What becomes of the line breaks at the end of a block scalar. -/
inductive Chomping where
  /-- None is kept. -/
  | strip
  /-- The first is kept. -/
  | clip
  /-- All are kept. -/
  | keep
deriving DecidableEq, Repr

/-- The first line of a block scalar: what is to be done at its end, and the indentation of its
lines in addition to that around it, if given. -/
structure BlockHeader where
  chomping : Chomping
  increment : Option Nat
deriving DecidableEq, Repr

/-- The chomping that a character asks for. -/
def chomping? (c : Char) : Option Chomping :=
  if c = '+' then some .keep else if c = '-' then some .strip else none

/-- Reads the digit of an indentation indicator, which is not zero. -/
def readIncrement (s : Spots) : Except Error (Option Nat × Spots) :=
  if (peek s).isDigit then
    if peek s = '0' then .error .badBlockHeader
    else .ok (some ((peek s).toNat - '0'.toNat), s.tail)
  else .ok (none, s)

/-- Reads the indicators of a block scalar, in either order. -/
def readIndicators (s : Spots) : Except Error (BlockHeader × Spots) := do
  match chomping? (peek s) with
  | some chomping =>
    let (increment, s) ← readIncrement s.tail
    return (⟨chomping, increment⟩, s)
  | none =>
    let (increment, s) ← readIncrement s
    if increment.isNone then return (⟨.clip, none⟩, s)
    match chomping? (peek s) with
    | some chomping => return (⟨chomping, increment⟩, s.tail)
    | none => return (⟨.clip, increment⟩, s)

/-- Reads the first line of a block scalar, up to the next line. -/
def readBlockHeader (s : Spots) : Except Error (BlockHeader × Spots) := do
  let (header, s) ← readIndicators s
  let s := skipChars isSpace s
  let s := if peek s = '#' then skipLine s else s
  if !isLineEnd (peek s) then throw .badBlockHeader
  return (header, if isBreak (peek s) then s.tail else s)

/-- Line breaks and indentation in front of a line of a block scalar. -/
structure Lead where
  /-- The line breaks, the latest first. -/
  breaks : List Char
  /-- The largest column that was reached. -/
  widest : Nat
  rest : Spots

/-- Reads empty lines and the indentation of the line behind them. Without an indentation to
keep to, all spaces are taken. -/
def readLead (indent : Option Nat) (breaks : List Char) (widest : Nat) :
    Spots → Except Error Lead
  | [] => .ok ⟨breaks, widest, []⟩
  | spot :: rest =>
    let inside := match indent with
      | none => true
      | some n => decide (spot.column < n)
    if inside && spot.char == ' ' then readLead indent breaks widest rest
    else
      let widest := max widest spot.column
      if inside && spot.char == '\t' then .error .tabIndentation
      else if isBreak spot.char then readLead indent (spot.char :: breaks) widest rest
      else .ok ⟨breaks, widest, spot :: rest⟩

/-- The lines of a block scalar as far as they have been read, the latest character first. -/
structure BlockText where
  text : List Char
  /-- The line break behind the last line. -/
  lastBreak : List Char
  /-- The line breaks behind that one, the latest first. -/
  emptyLines : List Char
  rest : Spots

/-- Reads the lines of a block scalar; `blankBefore` tells whether the line before starts with a
blank, in which case the break between the two is kept also when lines are folded. -/
def readBlockLines (literal : Bool) (indent : Nat) :
    Nat → Bool → BlockText → Except Error BlockText
  | 0, _, b => .ok b
  | fuel + 1, blankBefore, b =>
    match b.rest with
    | [] => .ok b
    | spot :: _ =>
      if spot.column != indent || isEnd spot.char then .ok b
      else do
        let blank := isSpace spot.char
        let fold := !literal && b.lastBreak == ['\n'] && !blankBefore && !blank
        let between :=
          if fold then (if b.emptyLines.isEmpty then [' '] else b.emptyLines)
          else b.emptyLines ++ b.lastBreak
        let (line, rest) := spanChars (fun c => !isLineEnd c) b.rest
        let (lastBreak, rest) := match rest with
          | next :: others => if isBreak next.char then ([next.char], others) else ([], rest)
          | [] => ([], rest)
        let lead ← readLead (some indent) [] 0 rest
        readBlockLines literal indent fuel blank
          ⟨line.reverse ++ (between ++ b.text), lastBreak, lead.breaks, lead.rest⟩

/-- Reads a block scalar behind its first character. `around` is the indentation around it, if
there is any. -/
def scanBlock (literal : Bool) (around : Option Nat) (s : Spots) :
    Except Error Scanned := do
  let (header, s) ← readBlockHeader s
  let least := match around with
    | some n => n + 1
    | none => 0
  let given := header.increment.map fun n => around.getD 0 + n
  let lead ← readLead given [] 0 s
  let indent := given.getD (max (max lead.widest least) 1)
  let b ← readBlockLines literal indent s.length false ⟨[], [], lead.breaks, lead.rest⟩
  let text := if header.chomping = .strip then b.text else b.lastBreak ++ b.text
  let text := if header.chomping = .keep then b.emptyLines ++ text else text
  return ⟨text.reverse, false, b.rest⟩

end Unimported.Yaml
