/-
Quoted text: a text in quotes in which every character can be told.

Quotes, backslashes and the usual control characters have escapes of their own; a character that
cannot be shown is written as its number.
-/
import Unimported.Text.Unprintable

set_option autoImplicit false

namespace Unimported.Text

/-- A code point as a number between braces. -/
def numbered (c : Char) : List Char :=
  ['\\', 'u', '\x7b'] ++ Nat.toDigits 16 c.toNat ++ ['\x7d']

/-- A character as it stands in quotes. -/
def quotedChar (c : Char) : List Char :=
  if c.toNat = 0 then ['\\', '0']
  else if c = '\t' then ['\\', 't']
  else if c = '\r' then ['\\', 'r']
  else if c = '\n' then ['\\', 'n']
  else if c = '\\' then ['\\', '\\']
  else if c = '"' then ['\\', '"']
  else if isUnprintable c then numbered c
  else [c]

/-- A text in quotes. -/
def quoted (text : List Char) : List Char := '"' :: (text.flatMap quotedChar ++ ['"'])

example : quoted ['a', '"', 'é', '\n', '\x7f'] = "\"a\\\"é\\n\\u\x7b7f\x7d\"".toList := by
  decide +kernel

end Unimported.Text
