/-
Settings in one line, for the log.
-/
import Unimported.Settings.Basic
import Unimported.Text.Quoted

set_option autoImplicit false

namespace Unimported

/-- Items between brackets. -/
def bracketed (items : List (List Char)) : List Char :=
  '[' :: (List.intercalate [',', ' '] items ++ [']'])

/-- The word for a truth value. -/
def truthWord (b : Bool) : List Char := if b then "true".toList else "false".toList

/-- Named fields between braces, behind a title. -/
def titled (title : String) (fields : List (String × List Char)) : List Char :=
  title.toList ++ [' ', '\x7b', ' ']
    ++ List.intercalate [',', ' '] (fields.map fun (name, value) =>
      name.toList ++ [':', ' '] ++ value)
    ++ [' ', '\x7d']

/-- The settings of reports in one line. -/
def ReportSettings.summary (r : ReportSettings) : List Char :=
  titled "ReportConfig" [
    ("format", Text.quoted r.format.toList),
    ("show_used", truthWord r.showUsed)]

/-- The settings in one line. -/
def Settings.summary (s : Settings) : String :=
  String.ofList (titled "Config" [
    ("targets", bracketed (s.targets.map fun p => Text.quoted p.display.toList)),
    ("extensions", bracketed (s.extensions.map fun e => Text.quoted e.toList)),
    ("exclude", bracketed (s.exclude.map fun e => Text.quoted e.toList)),
    ("respect_gitignore", truthWord s.respectIgnoreFiles),
    ("batch_size", Nat.toDigits 10 s.batchSize),
    ("parallel", truthWord s.parallel),
    ("report", s.report.summary)])

end Unimported
