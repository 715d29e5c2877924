/-
TOML keys, strings, numbers and times.

Each reader returns what it read together with the rest of the text. What may follow a value is
not its business, so a number that is cut short by a stray character is found out by whoever
reads on.
-/
import Unimported.Toml.Value

set_option autoImplicit false

namespace Unimported.Toml

/-! ## Classes of characters -/

/-- Whether the character may stand in a comment: no control character but the tab. -/
def isCommentChar (c : Char) : Bool := c == '\t' || (0x20 ≤ c.toNat && c.toNat ≠ 0x7F)

/-- Whether the character may stand in a bare key. -/
def isBareChar (c : Char) : Bool := c.isAlphanum || c == '_' || c == '-'

/-- Whether the character is a blank. -/
def isBlankChar (c : Char) : Bool := c == ' ' || c == '\t'

/-- Leaves out blanks. -/
def skipBlanks (text : List Char) : List Char := text.dropWhile isBlankChar

/-- The rest behind a line end, if the text starts with one. -/
def afterLineEnd? : List Char → Option (List Char)
  | '\n' :: rest => some rest
  | '\r' :: '\n' :: rest => some rest
  | _ => none

/-- Leaves out a comment, up to the end of its line. -/
def skipComment (text : List Char) : List Char :=
  match text with
  | '#' :: rest => rest.dropWhile isCommentChar
  | _ => text

/-! ## Strings -/

/-- The value of a hexadecimal digit. -/
def digitValue? (c : Char) : Option Nat :=
  if '0' ≤ c ∧ c ≤ '9' then some (c.toNat - '0'.toNat)
  else if 'a' ≤ c ∧ c ≤ 'f' then some (c.toNat - 'a'.toNat + 10)
  else if 'A' ≤ c ∧ c ≤ 'F' then some (c.toNat - 'A'.toNat + 10)
  else none

/-- The characters that a backslash and a letter stand for. -/
def escapes : List (Char × Char) :=
  [('b', '\x08'), ('t', '\t'), ('n', '\n'), ('f', '\x0C'), ('r', '\r'), ('"', '"'),
   ('\\', '\\')]

/-- The numbers of digits behind a backslash and a letter. -/
def longEscapes : List (Char × Nat) := [('u', 4), ('U', 8)]

/-- What the reader of a string is in the middle of. -/
inductive StringMode where
  /-- Text. -/
  | text
  /-- A backslash was read. -/
  | escape
  /-- So many hexadecimal digits are still to come. -/
  | digits (missing value : Nat)
  /-- A backslash at the end of a line was read, so blanks and line ends are left out. -/
  | fold
  /-- A backslash and blanks were read, and a line end must follow. -/
  | foldStart
deriving DecidableEq, Repr

/-- Reads a double-quoted string behind its first quote, `read` being the text so far, the latest
character first. -/
def readBasic (mode : StringMode) (read : List Char) : List Char → Except Error (List Char × List Char)
  | [] => .error .badString
  | c :: rest =>
    match mode with
    | .escape =>
      match escapes.lookup c, longEscapes.lookup c with
      | some e, _ => readBasic .text (e :: read) rest
      | none, some n => readBasic (.digits n 0) read rest
      | none, none => .error .badEscape
    | .digits missing value =>
      match digitValue? c with
      | none => .error .badEscape
      | some d =>
        let value := value * 16 + d
        if missing > 1 then readBasic (.digits (missing - 1) value) read rest
        else if value < 0xD800 ∨ (0xE000 ≤ value ∧ value ≤ 0x10FFFF) then
          readBasic .text (Char.ofNat value :: read) rest
        else .error .badEscape
    | _ =>
      if c = '"' then .ok (read.reverse, rest)
      else if c = '\\' then readBasic .escape read rest
      else if isCommentChar c then readBasic .text (c :: read) rest
      else .error .badString

/-- Reads a single-quoted string behind its first quote. -/
def readLiteral (read : List Char) : List Char → Except Error (List Char × List Char)
  | [] => .error .badString
  | c :: rest =>
    if c = '\'' then .ok (read.reverse, rest)
    else if isCommentChar c then readLiteral (c :: read) rest
    else .error .badString

/-- Ends a string of several lines: of the quotes at its end, up to five of them, the last three
close it and the others belong to it. -/
def closeLines (quote : Char) (quotes : Nat) (read : List Char) (rest : List Char) :
    Except Error (List Char × List Char) :=
  if quotes ≤ 5 then .ok ((List.replicate (quotes - 3) quote ++ read).reverse, rest)
  else .error .badString

/-- Reads a string of several lines behind its first quotes; `quotes` is the number of quotes
read last. -/
def readLines (quote : Char) (mode : StringMode) (quotes : Nat) (read : List Char) :
    List Char → Except Error (List Char × List Char)
  | [] => if quotes ≥ 3 then closeLines quote quotes read [] else .error .badString
  | c :: rest =>
    match mode with
    | .escape =>
      if isBlankChar c then readLines quote .foldStart 0 read rest
      else if c = '\n' then readLines quote .fold 0 read rest
      else if c = '\r' then
        if rest.head? = some '\n' then readLines quote .fold 0 read rest else .error .badEscape
      else
        match escapes.lookup c, longEscapes.lookup c with
        | some e, _ => readLines quote .text 0 (e :: read) rest
        | none, some n => readLines quote (.digits n 0) 0 read rest
        | none, none => .error .badEscape
    | .digits missing value =>
      match digitValue? c with
      | none => .error .badEscape
      | some d =>
        let value := value * 16 + d
        if missing > 1 then readLines quote (.digits (missing - 1) value) 0 read rest
        else if value < 0xD800 ∨ (0xE000 ≤ value ∧ value ≤ 0x10FFFF) then
          readLines quote .text 0 (Char.ofNat value :: read) rest
        else .error .badEscape
    | .foldStart =>
      if isBlankChar c then readLines quote .foldStart 0 read rest
      else if c = '\n' then readLines quote .fold 0 read rest
      else if c = '\r' ∧ rest.head? = some '\n' then readLines quote .fold 0 read rest
      else .error .badEscape
    | _ =>
      if c = quote then readLines quote .text (quotes + 1) read rest
      else if quotes ≥ 3 then closeLines quote quotes read (c :: rest)
      else
        let read := List.replicate quotes quote ++ read
        let folding := mode = .fold ∧ quotes = 0
        if c = '\r' then
          if rest.head? = some '\n' then readLines quote mode 0 read rest else .error .badString
        else if c = '\n' then
          if folding then readLines quote .fold 0 read rest
          else readLines quote .text 0 ('\n' :: read) rest
        else if folding ∧ isBlankChar c then readLines quote .fold 0 read rest
        else if c = '\\' ∧ quote = '"' then readLines quote .escape 0 read rest
        else if isCommentChar c then readLines quote .text 0 (c :: read) rest
        else .error .badString

/-- The text without a line end at its front. -/
def dropLineEnd (text : List Char) : List Char := (afterLineEnd? text).getD text

/-- Reads a string of any kind. -/
def readString : List Char → Except Error (List Char × List Char)
  | '"' :: '"' :: '"' :: rest => readLines '"' .text 0 [] (dropLineEnd rest)
  | '\'' :: '\'' :: '\'' :: rest => readLines '\'' .text 0 [] (dropLineEnd rest)
  | '"' :: rest => readBasic .text [] rest
  | '\'' :: rest => readLiteral [] rest
  | _ => .error .badString

/-! ## Keys -/

/-- Reads one part of a key. -/
def readSimpleKey : List Char → Except Error (Key × List Char)
  | '"' :: rest => readBasic .text [] rest
  | '\'' :: rest => readLiteral [] rest
  | text =>
    let key := text.takeWhile isBareChar
    if key.isEmpty then .error .badKey else .ok (key, text.dropWhile isBareChar)

/-- Reads the parts of a key, of which there are at most `limit`, and the blanks around them. -/
def readKeyParts : Nat → List Char → Except Error (List Key × List Char)
  | 0, _ => .error .tooDeep
  | limit + 1, text => do
    let (key, text) ← readSimpleKey (skipBlanks text)
    match skipBlanks text with
    | '.' :: rest =>
      let (keys, text) ← readKeyParts limit rest
      return (key :: keys, text)
    | text => return ([key], text)

/-- The largest number of parts of a key. -/
def keyLimit : Nat := 79

/-- Reads a key: the path to its last part, and that part. -/
def readKey (text : List Char) : Except Error ((List Key × Key) × List Char) := do
  let (keys, rest) ← readKeyParts keyLimit text
  match keys.getLast? with
  | some key => return ((keys.dropLast, key), rest)
  | none => throw .badKey

/-! ## Numbers -/

/-- Reads digits of the given base with single underscores between them; `after` tells whether
a digit was read last. -/
def readDigits (base : Nat) (after : Bool) : List Char → List Char × List Char
  | [] => ([], [])
  | c :: rest =>
    let digit := match digitValue? c with
      | some d => decide (d < base)
      | none => false
    let digitFollows := match rest.head?.bind digitValue? with
      | some d => decide (d < base)
      | none => false
    if digit then
      let r := readDigits base true rest
      (c :: r.1, r.2)
    else if c = '_' ∧ after ∧ digitFollows then readDigits base false rest
    else ([], c :: rest)

/-- The number that digits spell. -/
def natOfDigits (base : Nat) (digits : List Char) : Nat :=
  digits.foldl (fun n c => n * base + (digitValue? c).getD 0) 0

/-- Reads the sign of a number. -/
def readSign : List Char → Bool × List Char
  | '+' :: rest => (false, rest)
  | '-' :: rest => (true, rest)
  | text => (false, text)

/-- Reads the digits of a decimal number; behind a zero at the front there are none. -/
def readWhole (text : List Char) : List Char × List Char :=
  match text with
  | '0' :: rest => (['0'], rest)
  | _ => readDigits 10 false text

/-- The base that the front of a number asks for. -/
def baseOf? : List Char → Option (Nat × List Char)
  | '0' :: 'x' :: rest => some (16, rest)
  | '0' :: 'o' :: rest => some (8, rest)
  | '0' :: 'b' :: rest => some (2, rest)
  | _ => none

/-- The integer, if it is in the range of 64 bits. -/
def integerInRange (n : Int) : Except Error Value :=
  if -9223372036854775808 ≤ n ∧ n ≤ 9223372036854775807 then .ok (.integer n)
  else .error .outOfRange

/-- Whether `m` times ten to the power `e` is too large for a double: it reaches the middle
between the largest finite one and the power of two above. -/
def overflowsDouble (m : Nat) (e : Int) : Bool :=
  let size : Int := (Nat.toDigits 10 m).length
  if m = 0 ∨ size + e < 300 then false
  else if size + e > 320 then true
  else
    let bound := Nat.pow 2 1024 - Nat.pow 2 970
    if e < 0 then bound * Nat.pow 10 e.natAbs ≤ m else bound ≤ m * Nat.pow 10 e.natAbs

/-- Reads the exponent of a number, if it has one. -/
def readExponent? (text : List Char) : Option (Int × List Char) :=
  match text with
  | c :: rest =>
    if c = 'e' ∨ c = 'E' then
      let (negative, rest) := readSign rest
      let (digits, rest) := readDigits 10 false rest
      if digits.isEmpty then none
      else
        let n : Int := natOfDigits 10 digits
        some (if negative then -n else n, rest)
    else none
  | [] => none

/-- Reads the fraction of a number, if it has one. -/
def readFraction? (text : List Char) : Option (List Char × List Char) :=
  match text with
  | '.' :: rest =>
    let (digits, rest) := readDigits 10 false rest
    if digits.isEmpty then none else some (digits, rest)
  | _ => none

/-- Reads a float that is written with digits. A positive one that is too large is refused, and a
negative one stands for minus infinity. -/
def readFloat? (text : List Char) : Option (Except Error (Value × List Char)) :=
  let (negative, text) := readSign text
  let (whole, text) := readWhole text
  if whole.isEmpty then none
  else
    match readFraction? text with
    | some (fraction, text) =>
      let (exponent, text) := (readExponent? text).getD (0, text)
      let m := natOfDigits 10 (whole ++ fraction)
      some (if !negative && overflowsDouble m (exponent - fraction.length) then
          .error .outOfRange
        else .ok (.float, text))
    | none =>
      match readExponent? text with
      | some (exponent, text) =>
        some (if !negative && overflowsDouble (natOfDigits 10 whole) exponent then
            .error .outOfRange
          else .ok (.float, text))
      | none => none

/-- Reads an integer. -/
def readInteger (text : List Char) : Except Error (Value × List Char) :=
  match baseOf? text with
  | some (base, rest) => do
    let (digits, rest) := readDigits base false rest
    if digits.isEmpty then throw .badValue
    return (← integerInRange (natOfDigits base digits), rest)
  | none => do
    let (negative, rest) := readSign text
    let (digits, rest) := readWhole rest
    if digits.isEmpty then throw .badValue
    let n : Int := natOfDigits 10 digits
    return (← integerInRange (if negative then -n else n), rest)

/-! ## Times -/

/-- Reads a number of exactly `n` digits. -/
def readFixed? : Nat → Nat → List Char → Option (Nat × List Char)
  | 0, value, text => some (value, text)
  | n + 1, value, c :: rest =>
    if c.isDigit then readFixed? n (value * 10 + (c.toNat - '0'.toNat)) rest else none
  | _ + 1, _, [] => none

/-- Reads a number of two digits within bounds. -/
def readPair? (low high : Nat) (text : List Char) : Option (Nat × List Char) :=
  match readFixed? 2 0 text with
  | some (n, rest) => if low ≤ n ∧ n ≤ high then some (n, rest) else none
  | none => none

/-- Reads one given character. -/
def readChar? (c : Char) : List Char → Option (List Char)
  | [] => none
  | d :: rest => if c = d then some rest else none

/-- The number of days of a month. -/
def daysOf (year month : Nat) : Nat :=
  if month = 2 then
    if year % 4 = 0 ∧ (year % 100 ≠ 0 ∨ year % 400 = 0) then 29 else 28
  else if month = 4 ∨ month = 6 ∨ month = 9 ∨ month = 11 then 30 else 31

/-- Reads a date. -/
def readDate? (text : List Char) : Option (List Char) := do
  let (year, text) ← readFixed? 4 0 text
  let (month, text) ← readPair? 1 12 (← readChar? '-' text)
  let (day, text) ← readPair? 1 31 (← readChar? '-' text)
  if day ≤ daysOf year month then some text else none

/-- Reads a time of day. -/
def readTime? (text : List Char) : Option (List Char) := do
  let (_, text) ← readPair? 0 23 text
  let (_, text) ← readPair? 0 59 (← readChar? ':' text)
  let (_, text) ← readPair? 0 60 (← readChar? ':' text)
  match text with
  | '.' :: c :: rest => if c.isDigit then some (rest.dropWhile Char.isDigit) else none
  | _ => some text

/-- Reads the offset of a time, if it has one. -/
def readOffset (text : List Char) : List Char :=
  match text with
  | c :: rest =>
    if c = 'Z' ∨ c = 'z' then rest
    else if c = '+' ∨ c = '-' then
      let offset? : Option (List Char) := do
        let (_, rest) ← readPair? 0 23 rest
        let (_, rest) ← readPair? 0 59 (← readChar? ':' rest)
        return rest
      offset?.getD text
    else text
  | [] => text

/-- Reads a date, a time, or both. -/
def readDateTime? (text : List Char) : Option (List Char) :=
  match readDate? text with
  | some rest =>
    match rest with
    | c :: more =>
      if c = 'T' ∨ c = 't' ∨ c = ' ' then
        match readTime? more with
        | some more => some (readOffset more)
        | none => some rest
      else some rest
    | [] => some rest
  | none => readTime? text

/-- The rest behind a word, if the text starts with it. -/
def afterKeyword? (word text : List Char) : Option (List Char) :=
  if word.isPrefixOf text then some (text.drop word.length) else none

/-- Reads a number, a time, a truth value or a special float. -/
def readPlain (text : List Char) : Except Error (Value × List Char) :=
  match readDateTime? text with
  | some rest => .ok (.dateTime, rest)
  | none =>
    match readFloat? text with
    | some r => r
    | none =>
      let (_, unsigned) := readSign text
      match afterKeyword? "inf".toList unsigned, afterKeyword? "nan".toList unsigned,
          afterKeyword? "true".toList text, afterKeyword? "false".toList text with
      | some rest, _, _, _ => .ok (.float, rest)
      | _, some rest, _, _ => .ok (.float, rest)
      | _, _, some rest, _ => .ok (.boolean true, rest)
      | _, _, _, some rest => .ok (.boolean false, rest)
      | none, none, none, none => readInteger text

end Unimported.Toml
