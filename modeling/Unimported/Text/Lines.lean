/-
Lines: bytes cut at line ends.
-/
import Unimported.Text.Utf8

set_option autoImplicit false

namespace Unimported.Text

/-- The byte at which a line ends. -/
def lineFeed : Byte := 0x0A

/-- The byte that may stand before the end of a line. -/
def carriageReturn : Byte := 0x0D

/-- A line without the carriage return at its end. -/
def withoutReturn (line : List Byte) : List Byte :=
  if line.getLast? = some carriageReturn then line.dropLast else line

/-- The lines of the bytes behind `line`, the current line so far. Each line stands without its
end, and nothing behind the last end is no line. -/
def linesFrom (line : List Byte) : List Byte → List (List Byte)
  | [] => if line.isEmpty then [] else [line]
  | b :: rest =>
    if b = lineFeed then withoutReturn line :: linesFrom [] rest else linesFrom (line ++ [b]) rest

/-- The lines of the bytes. -/
def lines (bytes : List Byte) : List (List Byte) := linesFrom [] bytes

/-- The lines of the bytes up to the first that is not UTF-8. -/
def textLines (bytes : List Byte) : List (List Char) :=
  ((lines bytes).map Utf8.decode?).takeWhile Option.isSome |>.filterMap id

example : textLines [0x61, 0x0D, 0x0A, 0x62] = [['a'], ['b']] := by decide

end Unimported.Text
