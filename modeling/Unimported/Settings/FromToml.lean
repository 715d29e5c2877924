/-
Settings in TOML.

The root table gives the fields. The settings of reports may also be an array of their values in
order, and a time in their place is a table of which no field is known.
-/
import Unimported.Settings.Overlay
import Unimported.Toml.Document

set_option autoImplicit false

namespace Unimported.Settings

open Toml (Value)

/-- The text of a string. -/
def textOfValue? : Value → Option String
  | .string text => some (String.ofList text)
  | _ => none

/-- The texts of an array of strings. -/
def textsOfValue? : Value → Option (List String)
  | .array items => items.mapM textOfValue?
  | .tables [] => some []
  | _ => none

/-- A truth value. -/
def truthOfValue? : Value → Option Bool
  | .boolean b => some b
  | _ => none

/-- A number that is not negative. -/
def countOfValue? : Value → Option Nat
  | .integer n => if 0 ≤ n then some n.toNat else none
  | _ => none

/-- The fields of a table, with their names as strings. -/
def namedFields (fields : Toml.Fields) : List (String × Value) :=
  fields.map fun f => (String.ofList f.1, f.2)

/-- How values show what they are, apart from the settings of reports. -/
def tomlScalars : ValueReader Value where
  text := textOfValue?
  texts := textsOfValue?
  truth := truthOfValue?
  count := countOfValue?
  report _ := .error (.wrongKind "report")

/-- The settings of reports that a value gives. -/
def reportOfValue : Value → Except Mismatch ReportOverlay
  | .table _ fields => tomlScalars.reportOf (namedFields fields)
  | .array items => tomlScalars.reportOf (["format", "show_used"].zip items)
  | .dateTime => .ok .none
  | .tables [] => .ok .none
  | _ => .error (.wrongKind "report")

/-- How values show what they are. -/
def tomlReader : ValueReader Value := { tomlScalars with report := reportOfValue }

/-- The settings that a root table gives. -/
def overlayOfToml (root : Toml.Fields) : Except Mismatch Overlay :=
  tomlReader.overlayOf (namedFields root)

end Unimported.Settings
