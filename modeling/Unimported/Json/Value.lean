/-
JSON values and their text.

A value is written in one of two layouts: compact, without any blank, or indented, with every
item and every field on a line of its own. In a string the quote, the backslash and the control
characters are escaped, and all other characters stand for themselves.
-/
import Unimported.Number.Decimal

set_option autoImplicit false

namespace Unimported.Json

/-- A value. -/
inductive Value where
  | natural (n : Nat)
  /-- A number with a point. -/
  | real (x : Number.Double)
  | string (text : String)
  | array (items : List Value)
  /-- Fields, in the order in which they are written. -/
  | object (fields : List (String × Value))

/-! ## Strings -/

/-- The hexadecimal digit for a number below sixteen. -/
def hexDigit (n : Nat) : Char := Nat.digitChar (n % 16)

/-- A character as it stands in a string. -/
def escaped (c : Char) : List Char :=
  if c = '"' then ['\\', '"']
  else if c = '\\' then ['\\', '\\']
  else if c = '\n' then ['\\', 'n']
  else if c = '\t' then ['\\', 't']
  else if c = '\r' then ['\\', 'r']
  else if c.toNat = 0x08 then ['\\', 'b']
  else if c.toNat = 0x0C then ['\\', 'f']
  else if c.toNat < 0x20 then ['\\', 'u', '0', '0', hexDigit (c.toNat / 16), hexDigit c.toNat]
  else [c]

/-- A text in quotes. -/
def quoted (text : List Char) : List Char := '"' :: (text.flatMap escaped ++ ['"'])

/-! ## Layouts -/

/-- What stands between the parts of a value. -/
structure Layout where
  /-- What stands before an item or a field at the given depth, and before the bracket that
  closes a value at that depth. -/
  lineBreak : Nat → List Char
  /-- What stands between the colon and the value of a field. -/
  afterColon : List Char

/-- The layout without blanks. -/
def Layout.compact : Layout := ⟨fun _ => [], []⟩

/-- The layout with one item or field a line, two spaces deeper with each level. -/
def Layout.indented : Layout := ⟨fun depth => '\n' :: List.replicate (2 * depth) ' ', [' ']⟩

namespace Value

mutual

/-- The text of a value at the given depth. -/
def write (layout : Layout) (depth : Nat) : Value → List Char
  | natural n => Nat.toDigits 10 n
  | real x => x.write
  | string text => quoted text.toList
  | array [] => ['[', ']']
  | array (item :: items) =>
    '[' :: layout.lineBreak (depth + 1) ++ item.write layout (depth + 1)
      ++ writeItems layout (depth + 1) items ++ layout.lineBreak depth ++ [']']
  | object [] => ['\x7b', '\x7d']
  | object (field :: fields) =>
    '\x7b' :: layout.lineBreak (depth + 1) ++ writeField layout (depth + 1) field
      ++ writeFields layout (depth + 1) fields ++ layout.lineBreak depth ++ ['\x7d']

/-- The text of the items behind the first one, each behind a comma. -/
def writeItems (layout : Layout) (depth : Nat) : List Value → List Char
  | [] => []
  | item :: items =>
    ',' :: layout.lineBreak depth ++ item.write layout depth ++ writeItems layout depth items

/-- The text of a field. -/
def writeField (layout : Layout) (depth : Nat) : String × Value → List Char
  | (key, value) => quoted key.toList ++ ':' :: layout.afterColon ++ value.write layout depth

/-- The text of the fields behind the first one, each behind a comma. -/
def writeFields (layout : Layout) (depth : Nat) : List (String × Value) → List Char
  | [] => []
  | field :: fields =>
    ',' :: layout.lineBreak depth ++ writeField layout depth field
      ++ writeFields layout depth fields

end

/-- The compact text of a value. -/
def compact (v : Value) : String := String.ofList (v.write .compact 0)

/-- The indented text of a value. -/
def indented (v : Value) : String := String.ofList (v.write .indented 0)

end Value

end Unimported.Json
