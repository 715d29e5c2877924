/-
Reading globs.

The text is read one character at a time. Two stars in a row stand for directories only where
they make up a whole segment; whether they do shows at the character behind them, so the reader
waits for it. Where the group before them is empty they also need a slash or the end behind
them, and otherwise a slash (inside a group also a comma or an opening brace) before them.
Anywhere else two stars are two single ones. Stars that stand for directories take the slash
before them along: it is part of the token that they become.

A bracket opens a character class. There are two ways to read a text in which it is never closed:
strictly, as an error, and loosely, with this bracket and all that follow it as plain characters.
-/
import Unimported.Glob.Token

set_option autoImplicit false

namespace Unimported.Glob

open Text (Byte)

/-! ## Character classes -/

/-- A character class that is being read. -/
structure ClassState where
  negated : Bool
  /-- Nothing has been read yet, so that a sign of negation may follow. -/
  fresh : Bool
  /-- The closed ranges of characters so far, the latest first. -/
  ranges : List (Char × Char)
  /-- The last range awaits its end. -/
  inRange : Bool
  /-- All characters behind the bracket, the latest first. -/
  text : List Char
deriving Repr

namespace ClassState

/-- A class of which only the bracket has been read. -/
def opened : ClassState := ⟨false, true, [], false, []⟩

/-- Lets the last range end at `c`. -/
def endRange (s : ClassState) (c : Char) : Except Error ClassState :=
  match s.ranges with
  | [] => .ok { s with fresh := false, inRange := false }
  | (first, _) :: others =>
    if c < first then .error (.invalidRange first c)
    else .ok { s with fresh := false, ranges := (first, c) :: others, inRange := false }

/-- Adds the single character `c`. -/
def addChar (s : ClassState) (c : Char) : ClassState :=
  { s with fresh := false, ranges := (c, c) :: s.ranges, inRange := false }

/-- Whether a closing bracket would close the class; as its first character it is a member. -/
def canClose (s : ClassState) : Bool := !s.ranges.isEmpty

/-- Reads the next character of the class, which does not close it. -/
def step (s : ClassState) (c : Char) : Except Error ClassState :=
  let s := { s with text := c :: s.text }
  if s.fresh && (c == '!' || c == '^') then .ok { s with negated := true, fresh := false }
  else if c == '-' && !s.inRange && s.canClose then .ok { s with inRange := true }
  else if s.inRange then s.endRange c
  else .ok (s.addChar c)

/-- The ranges of bytes for a range of characters: the last byte of the first character to the
first byte of the last one, and the bytes beside them by themselves. -/
def byteRanges (range : Char × Char) : List (Byte × Byte) :=
  let single (bytes : List Byte) : List (Byte × Byte) := bytes.map fun b => (b, b)
  let first := Text.Utf8.encodeChar range.1
  let last := Text.Utf8.encodeChar range.2
  if range.1 = range.2 then single first
  else
    match first.getLast?, last with
    | some low, high :: rest => single first.dropLast ++ (low, high) :: single rest
    | _, _ => []

/-- The token for the finished class; a dash at its end is a member. -/
def token (s : ClassState) : Token :=
  let ranges := if s.inRange then ('-', '-') :: s.ranges else s.ranges
  .set s.negated (ranges.reverse.flatMap byteRanges)

end ClassState

/-! ## The reader -/

/-- A group of alternatives that is being read: the tokens before the group, and the finished
alternatives, both the latest first. -/
structure Group where
  outer : List Token
  finished : List Pattern

/-- What the reader waits for. -/
inductive Mode where
  /-- Nothing. -/
  | plain
  /-- The character behind a backslash. -/
  | escape
  /-- The character behind a star. -/
  | star
  /-- The character behind two stars. -/
  | stars
  /-- The end of a character class. -/
  | set (state : ClassState)

/-- The state of the reader: what it waits for, the character before the current one (before the
first star, while it waits for what is behind stars), the groups that are open, the innermost
first, the tokens of the current alternative, the latest first, and whether brackets open
character classes. -/
structure State where
  mode : Mode
  before : Option Char
  groups : List Group
  tokens : List Token
  classes : Bool

namespace State

/-- The state at the start of a glob. -/
def initial : State := ⟨.plain, none, [], [], true⟩

/-- Adds a token that was finished by the character `c`. -/
def push (s : State) (token : Token) (c : Char) : State :=
  { s with mode := .plain, before := some c, tokens := token :: s.tokens }

/-- Replaces the last token by the one that two stars become: it takes in the directories that
it stands for already. -/
def absorb (tokens : List Token) (token : Token) : List Token :=
  match tokens with
  | [] => [token]
  | .leading :: others => .leading :: others
  | .trailing :: others => .trailing :: others
  | _ :: others => token :: others

/-- Whether two stars stand behind something that a segment may start after. -/
def atSegmentStart (s : State) : Bool :=
  s.before == some '/' || (!s.groups.isEmpty && (s.before == some ',' || s.before == some '\x7b'))

/-- Opens a group of alternatives. -/
def openGroup (s : State) : State :=
  { s with
    mode := .plain, before := some '\x7b', groups := ⟨s.tokens, []⟩ :: s.groups, tokens := [] }

/-- Closes the innermost group of alternatives. -/
def closeGroup (s : State) : Except Error State :=
  match s.groups with
  | [] => .error .unopenedAlternates
  | group :: groups =>
    .ok { s with
      mode := .plain
      before := some '\x7d'
      groups := groups
      tokens := .choice (s.tokens.reverse :: group.finished).reverse :: group.outer }

/-- Reads a comma: the next alternative begins, or it is a comma where no group is open. -/
def comma (s : State) : State :=
  match s.groups with
  | [] => s.push (.literal (Text.Utf8.encodeChar ',')) ','
  | group :: groups =>
    { s with
      mode := .plain
      before := some ','
      groups := { group with finished := s.tokens.reverse :: group.finished } :: groups
      tokens := [] }

/-- Reads a character while nothing is awaited. -/
def stepPlain (s : State) (c : Char) : Except Error State :=
  if c = '?' then .ok (s.push .any c)
  else if c = '*' then .ok { s with mode := .star }
  else if c = '[' ∧ s.classes then .ok { s with mode := .set .opened }
  else if c = '\x7b' then .ok s.openGroup
  else if c = '\x7d' then s.closeGroup
  else if c = ',' then .ok s.comma
  else if c = '\\' then .ok { s with mode := .escape }
  else .ok (s.push (.literal (Text.Utf8.encodeChar c)) c)

/-- Two stars that are two single ones. -/
def pushTwoStars (s : State) : State :=
  { s with mode := .plain, before := some '*', tokens := .many :: .many :: s.tokens }

/-- Reads the character behind two stars. -/
def stepStars (s : State) (c : Char) : Except Error State :=
  if s.tokens.isEmpty then
    if c = '/' then .ok (s.push .leading c) else s.pushTwoStars.stepPlain c
  else if !s.atSegmentStart then s.pushTwoStars.stepPlain c
  else if c = '/' then
    .ok { s with mode := .plain, before := some c, tokens := absorb s.tokens .between }
  else if (c = ',' ∨ c = '\x7d') ∧ ¬ s.groups.isEmpty then
    stepPlain
      { s with mode := .plain, before := some '*', tokens := absorb s.tokens .trailing } c
  else s.pushTwoStars.stepPlain c

/-- Reads a character. -/
def step (s : State) (c : Char) : Except Error State :=
  match s.mode with
  | .plain => s.stepPlain c
  | .escape => .ok (s.push (.literal (Text.Utf8.encodeChar c)) c)
  | .star =>
    if c = '*' then .ok { s with mode := .stars } else (s.push .many '*').stepPlain c
  | .stars => s.stepStars c
  | .set state =>
    if c = ']' ∧ state.canClose then .ok (s.push state.token c)
    else do
      let state ← state.step c
      return { s with mode := .set state }

/-- The tokens of the outermost alternative at the end of the text, the latest first. -/
def tokensAtEnd (s : State) : Except Error (List Token) :=
  match s.mode with
  | .plain => .ok s.tokens
  | .escape => .error .danglingEscape
  | .star => .ok (.many :: s.tokens)
  | .stars =>
    if s.tokens.isEmpty then .ok [.leading]
    else if s.atSegmentStart then .ok (absorb s.tokens .trailing)
    else .ok (.many :: .many :: s.tokens)
  | .set _ => .error .unclosedClass

/-- The glob that has been read, at the end of the text. -/
def finish (s : State) : Except Error Pattern := do
  let tokens ← s.tokensAtEnd
  if s.groups.isEmpty then return tokens.reverse else throw .unclosedAlternates

/-- The state at the end of the text if a class that is not closed is none: its bracket is a plain
character, and so are the brackets behind it. -/
def withoutUnclosed (s : State) : Except Error State :=
  match s.mode with
  | .set state =>
    state.text.reverse.foldlM step
      ({ s with classes := false }.push (.literal (Text.Utf8.encodeChar '[')) '[')
  | _ => .ok s

end State

/-- Reads a glob strictly: a character class must be closed. -/
def parse (text : List Char) : Except Error Pattern := do
  let s ← text.foldlM State.step State.initial
  s.finish

/-- Reads a glob loosely: a bracket that opens no class is a plain character. -/
def parseLoose (text : List Char) : Except Error Pattern := do
  let s ← text.foldlM State.step State.initial
  (← s.withoutUnclosed).finish

end Unimported.Glob
