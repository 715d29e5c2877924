/-
YAML tokens.

Outside brackets the structure of a text lies in its columns. The tokens make it explicit: a
block collection opens where an entry or a key stands further right than the collection around
it, and closes before the first token that stands further left. That a scalar is a key shows
only at the colon behind it, so each place where a key could start is remembered; when the colon
comes, the token of the key, and if need be that of its mapping, is put in at that place.
-/
import Unimported.Yaml.Scalar

set_option autoImplicit false

namespace Unimported.Yaml

/-- A tag as it is written: its handle and what stands behind it. -/
structure RawTag where
  handle : List Char
  suffix : List Char
deriving DecidableEq, Repr

/-- A token. -/
inductive Token where
  | streamEnd
  | version (major minor : Nat)
  | tagDirective (handle start : List Char)
  | documentStart
  | documentEnd
  | blockSequence
  | blockMapping
  | blockEnd
  | flowSequence
  | flowSequenceEnd
  | flowMapping
  | flowMappingEnd
  | blockEntry
  | flowEntry
  | key
  | value
  | alias (name : List Char)
  | anchor (name : List Char)
  | tag (tag : RawTag)
  | scalar (style : Style) (value : List Char)
deriving DecidableEq, Repr

/-! ## Directives, anchors and tags -/

/-- Skips blanks and a comment up to the next line. -/
def endOfDirective (s : Spots) : Except Error Spots :=
  let s := skipChars isSpace s
  let s := if peek s = '#' then skipLine s else s
  if !isLineEnd (peek s) then .error .badDirective
  else .ok (if isBreak (peek s) then s.tail else s)

/-- Reads a number of at most nine digits. -/
def scanNumber (s : Spots) : Except Error (Nat × Spots) :=
  let (digits, rest) := spanChars Char.isDigit s
  if digits.isEmpty || digits.length > 9 then .error .badDirective
  else .ok (digits.foldl (fun n c => n * 10 + (c.toNat - '0'.toNat)) 0, rest)

/-- Reads the handle of a tag: an exclamation mark, and a name with another one, if there is. -/
def scanHandle (inDirective : Bool) (s : Spots) : Except Error (List Char × Spots) :=
  if peek s != '!' then .error .badTag
  else
    let (name, rest) := spanChars isNameChar s.tail
    if peek rest = '!' then .ok ('!' :: name ++ ['!'], rest.tail)
    else if inDirective && !name.isEmpty then .error .badTag
    else .ok ('!' :: name, rest)

/-- Whether the character may stand in a tag; commas and square brackets only in some places. -/
def isTagChar (withBrackets : Bool) (c : Char) : Bool :=
  isNameChar c || ";/?:@&=+$.%!~*'()".toList.contains c
    || (withBrackets && (c == ',' || c == '[' || c == ']'))

/-- The number of bytes of a character, told by the first. -/
def utf8Width (byte : Nat) : Nat :=
  if byte < 0x80 then 1 else if byte / 0x20 = 6 then 2 else if byte / 0x10 = 0xE then 3
  else if byte / 8 = 0x1E then 4 else 0

/-- Reads the characters of a tag, where a percent sign stands before the hexadecimal digits of
a byte. `missing` is the number of bytes that the current character still lacks. -/
def scanTagChars (withBrackets : Bool) : Nat → Nat → Spots → Except Error (List Char × Spots)
  | 0, _, s => .ok ([], s)
  | fuel + 1, missing, s =>
    let c := peek s
    if c = '%' ∧ isTagChar withBrackets c then
      match hexValue? (peek s.tail), hexValue? (peekSecond s.tail) with
      | some high, some low =>
        let byte := high * 16 + low
        let missing? :=
          if missing = 0 then
            if utf8Width byte = 0 then none else some (utf8Width byte - 1)
          else if byte / 0x40 = 2 then some (missing - 1) else none
        match missing? with
        | none => .error .badTag
        | some left =>
          (scanTagChars withBrackets fuel left (s.drop 3)).map fun r =>
            (Char.ofNat byte :: r.1, r.2)
      | _, _ => .error .badTag
    else if missing ≠ 0 then .error .badTag
    else if isTagChar withBrackets c then
      (scanTagChars withBrackets fuel 0 s.tail).map fun r => (c :: r.1, r.2)
    else .ok ([], s)

/-- Reads what stands behind the handle of a tag. -/
def scanTagRest (withBrackets : Bool) (s : Spots) : Except Error (List Char × Spots) :=
  scanTagChars withBrackets (s.length + 1) 0 s

/-- The text of a tag, which a null byte ends. -/
def tagText (chars : List Char) : List Char := chars.takeWhile fun c => !isEnd c

/-- Reads a directive behind its percent sign. -/
def scanDirective (s : Spots) : Except Error (Token × Spots) := do
  let (name, s) := spanChars isNameChar s
  if name.isEmpty || !isWordEnd (peek s) then throw .badDirective
  let s := skipChars isSpace s
  if name = "YAML".toList then
    let (major, s) ← scanNumber s
    if peek s != '.' then throw .badDirective
    let (minor, s) ← scanNumber s.tail
    return (.version major minor, ← endOfDirective s)
  else if name = "TAG".toList then
    let (handle, s) ← scanHandle true s
    if !isSpace (peek s) then throw .badDirective
    let (start, s) ← scanTagRest true (skipChars isSpace s)
    if start.isEmpty || !isWordEnd (peek s) then throw .badDirective
    return (.tagDirective handle (tagText start), ← endOfDirective s)
  else throw .badDirective

/-- Reads the name of an anchor or an alias. -/
def scanName (s : Spots) : Except Error (List Char × Spots) :=
  let (name, rest) := spanChars isNameChar s
  let c := peek rest
  if name.isEmpty || !(isWordEnd c || "?:,]\x7d%@\x60".toList.contains c) then .error .badAnchor
  else .ok (name, rest)

/-- Reads a tag, which starts at its exclamation mark. -/
def scanTag (inFlow : Bool) (s : Spots) : Except Error (RawTag × Spots) := do
  let (tag, s) ←
    if peekSecond s = '<' then do
      let (suffix, s) ← scanTagRest true (s.drop 2)
      if suffix.isEmpty || peek s != '>' then throw .badTag
      pure (⟨[], tagText suffix⟩, s.tail)
    else do
      let (handle, s) ← scanHandle false s
      if handle.length > 1 && handle.getLast? = some '!' then
        let (suffix, s) ← scanTagRest false s
        if suffix.isEmpty then throw .badTag
        pure (⟨handle, tagText suffix⟩, s)
      else
        let (more, s) ← scanTagRest false s
        let suffix := tagText (handle.tail ++ more)
        pure (if suffix.isEmpty then (⟨[], ['!']⟩, s) else (⟨['!'], suffix⟩, s))
  if !(inFlow && peek s = ',') && !isWordEnd (peek s) then throw .badTag
  return (tag, s)

/-! ## Tokens in order -/

/-- The tokens of the front of a text, and how many they are. -/
structure Tokens where
  /-- The tokens, the latest first. -/
  latestFirst : List Token
  count : Nat
  count_eq : count = latestFirst.length

namespace Tokens

/-- No tokens. -/
def empty : Tokens := ⟨[], 0, rfl⟩

/-- Adds a token. -/
def push (tokens : Tokens) (token : Token) : Tokens :=
  ⟨token :: tokens.latestFirst, tokens.count + 1, congrArg (· + 1) tokens.count_eq⟩

/-- With a token put in there is one more than before. -/
theorem count_insertAt (tokens : Tokens) (before : Nat) (token : Token) :
    tokens.count + 1
      = (tokens.latestFirst.insertIdx (tokens.count - before) token).length := by
  rw [List.length_insertIdx_of_le_length (tokens.count_eq ▸ Nat.sub_le _ _), ← tokens.count_eq]

/-- Puts in a token behind the first ones, of which there are `before`. -/
def insertAt (tokens : Tokens) (before : Nat) (token : Token) : Tokens :=
  ⟨tokens.latestFirst.insertIdx (tokens.count - before) token, tokens.count + 1,
    tokens.count_insertAt before token⟩

/-- The tokens as they stand in the text. -/
def toList (tokens : Tokens) : List Token := tokens.latestFirst.reverse

end Tokens

/-! ## The lexer -/

/-- A place where a key may have started: its spot, the number of tokens before it, and whether
nothing else than a key may stand there. -/
structure KeyPlace where
  spot : Spot
  tokensBefore : Nat
  required : Bool

/-- The state of the lexer. -/
structure Lexer where
  rest : Spots
  /-- The tokens so far. -/
  tokens : Tokens
  /-- The column of the innermost block collection, if there is one. -/
  indent : Option Nat
  /-- The columns of the block collections around it, the innermost first. -/
  outer : List (Option Nat)
  /-- Whether a key may start at the next token. -/
  keyAllowed : Bool
  /-- Where a key may have started outside all brackets. -/
  keyPlace : Option KeyPlace
  /-- Where a key may have started inside each open bracket, the innermost first. -/
  flowPlaces : List (Option KeyPlace)

namespace Lexer

/-- The state at the front of a text. -/
def initial (s : Spots) : Lexer := ⟨s, .empty, none, [], true, none, []⟩

/-- Whether a bracket is open. -/
def inFlow (l : Lexer) : Bool := !l.flowPlaces.isEmpty

/-- The next spot. -/
def here (l : Lexer) : Spot := l.rest.headD ⟨'\x00', 0, 0, 0⟩

/-- Whether the block collection at hand stands left of the column. -/
def isIndentedBy (indent : Option Nat) (column : Nat) : Bool :=
  match indent with
  | none => true
  | some n => n < column

/-- Adds a token. -/
def push (l : Lexer) (token : Token) : Lexer := { l with tokens := l.tokens.push token }

/-- Puts in a token behind the first ones, of which there are `before`. -/
def insertAt (l : Lexer) (before : Nat) (token : Token) : Lexer :=
  { l with tokens := l.tokens.insertAt before token }

/-- Skips blanks, comments, line breaks, and a byte order mark at the front of a line. Tabs count as
blanks where no key may start, and a new line outside brackets is a place where one may. -/
def skipToToken (l : Lexer) : Nat → Lexer
  | 0 => l
  | fuel + 1 =>
    let tabs := l.inFlow || !l.keyAllowed
    let s := skipChars (fun c => c == ' ' || (tabs && c == '\t')) (skipMark l.rest)
    let s := if peek s = '#' then skipLine s else s
    if isBreak (peek s) then
      skipToToken { l with rest := s.tail, keyAllowed := l.keyAllowed || !l.inFlow } fuel
    else { l with rest := s }

/-- Forgets the place if no key can start there any more: a key without a question mark lies
within a line and within 1024 bytes. -/
def refresh (l : Lexer) (place : Option KeyPlace) : Except Error (Option KeyPlace) :=
  match place with
  | none => .ok none
  | some p =>
    if p.spot.line < l.here.line ∨ p.spot.index + 1024 < l.here.index then
      if p.required then .error .missingColon else .ok none
    else .ok (some p)

/-- Forgets the places where no key can start any more, of those outside all brackets and inside
the innermost ones. The others have time until they are the innermost. -/
def refreshPlaces (l : Lexer) : Except Error Lexer := do
  let keyPlace ← l.refresh l.keyPlace
  match l.flowPlaces with
  | [] => return { l with keyPlace := keyPlace }
  | place :: others =>
    return { l with keyPlace := keyPlace, flowPlaces := (← l.refresh place) :: others }

/-- The innermost place where a key may have started. -/
def place (l : Lexer) : Option KeyPlace :=
  match l.flowPlaces with
  | [] => l.keyPlace
  | p :: _ => p

/-- Sets the innermost place where a key may have started. -/
def setPlace (l : Lexer) (p : Option KeyPlace) : Lexer :=
  match l.flowPlaces with
  | [] => { l with keyPlace := p }
  | _ :: others => { l with flowPlaces := p :: others }

/-- Gives up the innermost place where a key may have started. -/
def dropPlace (l : Lexer) : Except Error Lexer :=
  match l.place with
  | some p => if p.required then .error .missingColon else .ok (l.setPlace none)
  | none => .ok l

/-- Remembers the next spot, if a key may start there. -/
def savePlace (l : Lexer) : Except Error Lexer :=
  if l.keyAllowed then do
    let required := !l.inFlow && l.indent == some l.here.column
    let l ← l.dropPlace
    return l.setPlace (some ⟨l.here, l.tokens.count, required⟩)
  else .ok l

/-- Opens a block collection at the column, unless one is open there. Its token is put in behind
the first ones, of which there are `before`. -/
def openBlock (l : Lexer) (column before : Nat) (token : Token) : Lexer :=
  if !l.inFlow && isIndentedBy l.indent column then
    { l.insertAt before token with indent := some column, outer := l.indent :: l.outer }
  else l

/-- Closes the innermost block collections, `outer` being the columns around them, as long as
they stand right of the column; without a column, all of them. -/
def closeBlocks (l : Lexer) (column : Option Nat) : List (Option Nat) → Lexer
  | [] => l
  | next :: outer =>
    match l.indent with
    | none => l
    | some n =>
      if l.inFlow || !(column.all fun c => c < n) then l
      else closeBlocks { l.push .blockEnd with indent := next, outer := outer } column outer

/-- Closes the block collections that stand right of the column. -/
def unroll (l : Lexer) (column : Option Nat) : Lexer := l.closeBlocks column l.outer

/-- Reads something that starts outside all collections. -/
def atTopLevel (l : Lexer) : Except Error Lexer := do
  let l ← (l.unroll none).dropPlace
  return { l with keyAllowed := false }

/-- Goes on behind the first `n` characters. -/
def advance (l : Lexer) (n : Nat) : Lexer := { l with rest := l.rest.drop n }

/-- Reads an opening bracket. -/
def openFlow (l : Lexer) (token : Token) : Except Error Lexer := do
  let l ← l.savePlace
  return { (l.push token).advance 1 with keyAllowed := true, flowPlaces := none :: l.flowPlaces }

/-- Reads a closing bracket. -/
def closeFlow (l : Lexer) (token : Token) : Except Error Lexer := do
  let l ← l.dropPlace
  return { (l.push token).advance 1 with keyAllowed := false, flowPlaces := l.flowPlaces.tail }

/-- Reads a comma between entries in brackets. -/
def flowEntry (l : Lexer) : Except Error Lexer := do
  let l ← l.dropPlace
  return { (l.push .flowEntry).advance 1 with keyAllowed := true }

/-- Reads the dash of a sequence entry. -/
def blockEntry (l : Lexer) : Except Error Lexer := do
  if !l.inFlow && !l.keyAllowed then throw .misplacedEntry
  let l := l.openBlock l.here.column l.tokens.count .blockSequence
  let l ← l.dropPlace
  return { (l.push .blockEntry).advance 1 with keyAllowed := true }

/-- Reads the question mark before a key. -/
def explicitKey (l : Lexer) : Except Error Lexer := do
  if !l.inFlow && !l.keyAllowed then throw .misplacedKey
  let l := l.openBlock l.here.column l.tokens.count .blockMapping
  let l ← l.dropPlace
  return { (l.push .key).advance 1 with keyAllowed := !l.inFlow }

/-- Reads the colon before a value. -/
def value (l : Lexer) : Except Error Lexer :=
  match l.place with
  | some p =>
    let l := l.insertAt p.tokensBefore .key
    let l := (l.openBlock p.spot.column p.tokensBefore .blockMapping).setPlace none
    .ok { (l.push .value).advance 1 with keyAllowed := false }
  | none =>
    if !l.inFlow && !l.keyAllowed then .error .misplacedValue
    else
      let l := l.openBlock l.here.column l.tokens.count .blockMapping
      .ok { (l.push .value).advance 1 with keyAllowed := !l.inFlow }

/-- Reads a token that may start a key: an anchor, an alias or a tag. -/
def property (l : Lexer) (scan : Spots → Except Error (Token × Spots)) : Except Error Lexer := do
  let l ← l.savePlace
  let (token, rest) ← scan l.rest
  return { l.push token with rest := rest, keyAllowed := false }

/-- Adds a scalar. -/
def pushScalar (l : Lexer) (style : Style) (s : Scanned) (keyAllowed : Bool) : Lexer :=
  { l.push (.scalar style s.value) with rest := s.rest, keyAllowed := keyAllowed }

/-- Reads a block scalar. -/
def blockScalar (l : Lexer) (literal : Bool) : Except Error Lexer := do
  let l ← l.dropPlace
  let s ← scanBlock literal l.indent l.rest.tail
  return l.pushScalar (if literal then .literal else .folded) s true

/-- Reads a quoted scalar. -/
def quotedScalar (l : Lexer) (single : Bool) : Except Error Lexer := do
  let l ← l.savePlace
  let s ← scanQuoted single .text [] .empty l.rest.tail
  return l.pushScalar (if single then .singleQuoted else .doubleQuoted) s false

/-- Reads a plain scalar. -/
def plainScalar (l : Lexer) : Except Error Lexer := do
  let l ← l.savePlace
  let indent := match l.indent with
    | none => 0
    | some n => n + 1
  let s ← scanPlain l.inFlow indent [] .empty l.rest
  return l.pushScalar .plain s s.atNewLine

/-- Whether a plain scalar can start with the next character. -/
def startsPlain (l : Lexer) : Bool :=
  let c := peek l.rest
  let next := peekSecond l.rest
  !(isWordEnd c || "-?:,[]\x7b\x7d#&*!|>'\"%@\x60".toList.contains c)
    || (c == '-' && !isSpace next) || (!l.inFlow && (c == '?' || c == ':') && !isWordEnd next)

/-- Reads the next token, the text being at its first character, which is not its end. -/
def nextToken (l : Lexer) : Except Error Lexer :=
  let c := peek l.rest
  let wordEnds := isWordEnd (peekSecond l.rest)
  if l.here.column = 0 ∧ c = '%' then do
    let l ← l.atTopLevel
    let (token, rest) ← scanDirective l.rest.tail
    return { l.push token with rest := rest }
  else if isMarker '-' l.rest then do return ((← l.atTopLevel).push .documentStart).advance 3
  else if isMarker '.' l.rest then do return ((← l.atTopLevel).push .documentEnd).advance 3
  else if c = '[' then l.openFlow .flowSequence
  else if c = '\x7b' then l.openFlow .flowMapping
  else if c = ']' then l.closeFlow .flowSequenceEnd
  else if c = '\x7d' then l.closeFlow .flowMappingEnd
  else if c = ',' then l.flowEntry
  else if c = '-' ∧ wordEnds then l.blockEntry
  else if c = '?' ∧ (l.inFlow || wordEnds) then l.explicitKey
  else if c = ':' ∧ (l.inFlow || wordEnds) then l.value
  else if c = '*' then l.property fun s => (scanName s.tail).map fun r => (.alias r.1, r.2)
  else if c = '&' then l.property fun s => (scanName s.tail).map fun r => (.anchor r.1, r.2)
  else if c = '!' then l.property fun s => (scanTag l.inFlow s).map fun r => (.tag r.1, r.2)
  else if c = '|' ∧ !l.inFlow then l.blockScalar true
  else if c = '>' ∧ !l.inFlow then l.blockScalar false
  else if c = '\'' then l.quotedScalar true
  else if c = '"' then l.quotedScalar false
  else if l.startsPlain then l.plainScalar
  else .error .unexpectedCharacter

/-- Reads tokens until the text ends; `fuel` is at least the number of spots that are left. -/
def run (l : Lexer) : Nat → Except Error (List Token)
  | 0 => .error .unexpectedCharacter
  | fuel + 1 => do
    let l := l.skipToToken (fuel + 1)
    let l ← l.refreshPlaces
    let l := l.unroll (some l.here.column)
    if isEnd (peek l.rest) then
      let l ← l.atTopLevel
      return (l.push .streamEnd).tokens.toList
    else (← l.nextToken).run fuel

end Lexer

/-- The tokens of a text. Each of them takes at least one character, apart from those that open
and close block collections. -/
def tokensOf (text : List Char) : Except Error (List Token) := do
  let spots ← spotsOf text
  (Lexer.initial spots).run (spots.length + 1)

end Unimported.Yaml
