/-
Output formats and their names.
-/

set_option autoImplicit false

namespace Unimported.Report

/-- How a report is written. -/
inductive Format where
  /-- Tables for a reader. -/
  | terminal
  /-- A document for programs. -/
  | json
deriving DecidableEq, Repr

/-- The name of a format. -/
def Format.name : Format → String
  | .terminal => "terminal"
  | .json => "json"

/-- All formats. -/
def Format.all : List Format := [.terminal, .json]

/-- The format with the given name; the capitals A to Z make no difference. -/
def Format.ofName? (name : String) : Option Format :=
  let small := name.toList.map Char.toLower
  if small = "terminal".toList ∨ small = "text".toList then some .terminal
  else if small = "json".toList then some .json
  else none

end Unimported.Report
