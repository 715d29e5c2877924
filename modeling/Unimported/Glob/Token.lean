/-
Globs: patterns over paths, as lists of tokens.

A glob speaks about the bytes of a path. A literal character stands for its UTF-8 bytes, and a
wildcard for one byte, so `?` does not match a letter that takes two of them.
-/
import Unimported.Path.Basic

set_option autoImplicit false

namespace Unimported.Glob

open Text (Byte)

/-- One token of a glob. -/
inductive Token where
  /-- These bytes and no others. -/
  | literal (bytes : List Byte)
  /-- Any one byte. -/
  | any
  /-- Any number of bytes. -/
  | many
  /-- One byte that lies in one of the ranges, or, if negated, in none. -/
  | set (negated : Bool) (ranges : List (Byte × Byte))
  /-- Any directories at the front of the path, or none. -/
  | leading
  /-- A slash, or any directories between two slashes. -/
  | between
  /-- A slash and all that follows it. -/
  | trailing
  /-- One of several globs. -/
  | choice (alternatives : List (List Token))

/-- The tokens of a glob, in order. -/
abbrev Pattern := List Token

/-- Why a text is not a glob. -/
inductive Error where
  /-- A character class is not closed. -/
  | unclosedClass
  /-- A range of characters ends before it starts. -/
  | invalidRange (first last : Char)
  /-- A group of alternatives is not closed. -/
  | unclosedAlternates
  /-- A group of alternatives is closed, but none is open. -/
  | unopenedAlternates
  /-- The text ends in a backslash. -/
  | danglingEscape
deriving DecidableEq, Repr

/-- What is wrong, in words. -/
def Error.message : Error → String
  | .unclosedClass => "unclosed character class; missing ']'"
  | .invalidRange first last =>
    "invalid range; '" ++ first.toString ++ "' > '" ++ last.toString ++ "'"
  | .unclosedAlternates =>
    "unclosed alternate group; missing '\x7d' (maybe escape '\x7b' with '[\x7b]'?)"
  | .unopenedAlternates =>
    "unopened alternate group; missing '\x7b' (maybe escape '\x7d' with '[\x7d]'?)"
  | .danglingEscape => "dangling '\\'"

end Unimported.Glob
