/-
JSON texts, and what they stand for.

The grammar is that of the JSON standard, and no text beyond it stands for anything: no comma behind
the last item, no zero in front of a number, no control character in a string and no half of a
surrogate pair. `Spells` says which text stands for which tree. It says so for the parts of an array
and of an object as well, so that one induction goes over all of them.
-/

set_option autoImplicit false

namespace Unimported.Json

/-- What a text stands for. Natural numbers are read, and all other numbers are kept as they are
spelled. The fields of an object are in the order of the text. -/
inductive Tree where
  | null
  | boolean (b : Bool)
  | natural (n : Nat)
  | decimal (text : List Char)
  | string (text : String)
  | array (items : List Tree)
  | object (fields : List (String × Tree))

/-! ## Blanks -/

/-- The characters that may stand between the parts of a text. -/
def isSpace (c : Char) : Bool := c = ' ' || c = '\t' || c = '\n' || c = '\r'

/-- A text that has such characters only. -/
def IsGap (text : List Char) : Prop := ∀ c ∈ text, isSpace c = true

/-! ## Numbers

A number has up to three parts, each with a grammar of its own. Only natural numbers are
given a value, so what the others are worth need not be said. -/

/-- Digits, at least one. -/
def IsDigits (text : List Char) : Prop := text ≠ [] ∧ ∀ c ∈ text, c.isDigit = true

/-- The part of a number before its point. The digits of a natural number have no zero in front,
unless they are that zero. -/
inductive IsSigned : List Char → Prop where
  | plain (n : Nat) : IsSigned (Nat.toDigits 10 n)
  | minus (n : Nat) : IsSigned ('-' :: Nat.toDigits 10 n)

/-- The part of a number from its point on, if it has one. -/
inductive IsFraction : List Char → Prop where
  | none : IsFraction []
  | digits {digits : List Char} (h : IsDigits digits) : IsFraction ('.' :: digits)

/-- The letters before an exponent. -/
def isMark (c : Char) : Bool := c = 'e' || c = 'E'

/-- An exponent without its letter. -/
inductive IsPower : List Char → Prop where
  | plain {digits : List Char} (h : IsDigits digits) : IsPower digits
  | plus {digits : List Char} (h : IsDigits digits) : IsPower ('+' :: digits)
  | minus {digits : List Char} (h : IsDigits digits) : IsPower ('-' :: digits)

/-- The exponent of a number, if it has one. -/
inductive IsExponent : List Char → Prop where
  | none : IsExponent []
  | power {mark : Char} {power : List Char} (hmark : isMark mark = true) (h : IsPower power) :
    IsExponent (mark :: power)

/-- The text of a number. -/
inductive IsNumber : List Char → Prop where
  | mk {signed fraction exponent : List Char} (hsigned : IsSigned signed)
    (hfraction : IsFraction fraction) (hexponent : IsExponent exponent) :
    IsNumber (signed ++ fraction ++ exponent)

/-! ## Words -/

/-- The values that are written without quotes and brackets. -/
inductive SpellsWord : Tree → List Char → Prop where
  | null : SpellsWord .null ['n', 'u', 'l', 'l']
  | yes : SpellsWord (.boolean true) ['t', 'r', 'u', 'e']
  | no : SpellsWord (.boolean false) ['f', 'a', 'l', 's', 'e']
  | natural (n : Nat) : SpellsWord (.natural n) (Nat.toDigits 10 n)
  | decimal {text : List Char} (h : IsNumber text) (hother : ∀ n, text ≠ Nat.toDigits 10 n) :
    SpellsWord (.decimal text) text

/-! ## Strings

A character may be written in several ways, so strings are told by what their characters may
be written as. An escape with two units is one character, and half of such a pair is none. -/

/-- The characters that stand for themselves in a string. -/
def isPlain (c : Char) : Bool := 0x20 ≤ c.toNat && c ≠ '"' && c ≠ '\\'

/-- The letters that stand for a character behind a backslash. -/
def letterEscapes : List (Char × Char) :=
  [('"', '"'), ('\\', '\\'), ('/', '/'), ('b', '\x08'), ('f', '\x0c'), ('n', '\n'), ('r', '\r'),
   ('t', '\t')]

/-- The value of a hexadecimal digit. -/
def hexValue? (c : Char) : Option Nat :=
  if c.isDigit then some (c.toNat - '0'.toNat)
  else if 'a' ≤ c ∧ c ≤ 'f' then some (c.toNat - 'a'.toNat + 10)
  else if 'A' ≤ c ∧ c ≤ 'F' then some (c.toNat - 'A'.toNat + 10)
  else none

/-- The value of four hexadecimal digits. -/
def unit? : List Char → Option Nat
  | [a, b, c, d] => do
    return (((← hexValue? a) * 16 + (← hexValue? b)) * 16 + (← hexValue? c)) * 16 + (← hexValue? d)
  | _ => none

/-- The first half of a surrogate pair. -/
def IsHigh (unit : Nat) : Prop := 0xD800 ≤ unit ∧ unit < 0xDC00

instance (unit : Nat) : Decidable (IsHigh unit) := inferInstanceAs (Decidable (_ ∧ _))

/-- The second half of a surrogate pair. -/
def IsLow (unit : Nat) : Prop := 0xDC00 ≤ unit ∧ unit < 0xE000

instance (unit : Nat) : Decidable (IsLow unit) := inferInstanceAs (Decidable (_ ∧ _))

/-- The code point of a surrogate pair. -/
def ofPair (high low : Nat) : Nat := 0x10000 + (high - 0xD800) * 0x400 + (low - 0xDC00)

/-- How a character of a string may be written. -/
inductive SpellsChar : Char → List Char → Prop where
  | plain {c : Char} (h : isPlain c = true) : SpellsChar c [c]
  | letter {letter c : Char} (h : (letter, c) ∈ letterEscapes) : SpellsChar c ['\\', letter]
  | unit {c : Char} {digits : List Char} (h : unit? digits = some c.toNat) :
    SpellsChar c ('\\' :: 'u' :: digits)
  | pair {c : Char} {first second : List Char} {high low : Nat} (hfirst : unit? first = some high)
    (hsecond : unit? second = some low) (hhigh : IsHigh high) (hlow : IsLow low)
    (h : c.toNat = ofPair high low) :
    SpellsChar c ('\\' :: 'u' :: (first ++ '\\' :: 'u' :: second))

/-- How the characters of a string may be written, and the quote behind them. -/
inductive SpellsText : List Char → List Char → Prop where
  | quote : SpellsText [] ['"']
  | char {c : Char} {chars written rest : List Char} (h : SpellsChar c written)
    (hrest : SpellsText chars rest) : SpellsText (c :: chars) (written ++ rest)

/-- How the key of a field may be written, with the colon behind it. -/
inductive SpellsKey : String → List Char → Prop where
  | mk {key : String} {before text after : List Char} (hbefore : IsGap before)
    (h : SpellsText key.toList text) (hafter : IsGap after) :
    SpellsKey key (before ++ '"' :: text ++ after ++ [':'])

/-! ## Values

Values, and the parts of arrays and objects from one comma to the next, are defined
together. The part behind a comma ends with the closing bracket, so each rule has its text
in one piece. -/

/-- What parts of a text stand for. -/
inductive Phrase where
  | value (t : Tree)
  /-- A value and the blanks around it. -/
  | element (t : Tree)
  /-- The items of an array up to and with the bracket that closes it. -/
  | items (ts : List Tree)
  /-- The fields of an object up to and with the bracket that closes it. -/
  | fields (fs : List (String × Tree))

/-- Which texts stand for a phrase. -/
inductive Spells : Phrase → List Char → Prop where
  | word {t : Tree} {text : List Char} (h : SpellsWord t text) : Spells (.value t) text
  | string {s : String} {text : List Char} (h : SpellsText s.toList text) :
    Spells (.value (.string s)) ('"' :: text)
  | emptyArray {gap : List Char} (h : IsGap gap) :
    Spells (.value (.array [])) ('[' :: (gap ++ [']']))
  | array {items : List Tree} {text : List Char} (h : Spells (.items items) text) :
    Spells (.value (.array items)) ('[' :: text)
  | emptyObject {gap : List Char} (h : IsGap gap) :
    Spells (.value (.object [])) ('\x7b' :: (gap ++ ['\x7d']))
  | object {fields : List (String × Tree)} {text : List Char} (h : Spells (.fields fields) text) :
    Spells (.value (.object fields)) ('\x7b' :: text)
  | element {t : Tree} {before text after : List Char} (hbefore : IsGap before)
    (h : Spells (.value t) text) (hafter : IsGap after) :
    Spells (.element t) (before ++ text ++ after)
  | lastItem {t : Tree} {text : List Char} (h : Spells (.element t) text) :
    Spells (.items [t]) (text ++ [']'])
  | item {t : Tree} {ts : List Tree} {text rest : List Char} (h : Spells (.element t) text)
    (hrest : Spells (.items ts) rest) : Spells (.items (t :: ts)) (text ++ ',' :: rest)
  | lastField {key : String} {t : Tree} {text value : List Char} (hkey : SpellsKey key text)
    (h : Spells (.element t) value) : Spells (.fields [(key, t)]) (text ++ value ++ ['\x7d'])
  | field {key : String} {t : Tree} {fs : List (String × Tree)} {text value rest : List Char}
    (hkey : SpellsKey key text) (h : Spells (.element t) value)
    (hrest : Spells (.fields fs) rest) :
    Spells (.fields ((key, t) :: fs)) (text ++ value ++ ',' :: rest)

end Unimported.Json
