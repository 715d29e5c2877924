/-
Settings: what a run looks for, where, and how it reports.
-/
import Unimported.Source.File

set_option autoImplicit false

namespace Unimported

/-- How the outcome is reported. -/
structure ReportSettings where
  /-- The name of the output format. -/
  format : String
  /-- Whether files in use are listed too. -/
  showUsed : Bool
deriving DecidableEq, Repr

/-- The settings of a run. -/
structure Settings where
  /-- The directories to search, as seen from the root; without any, the root itself. -/
  targets : List Path
  /-- The extensions of candidate files; dots in front and case make no difference. -/
  extensions : List String
  /-- Globs for the files to leave out, as seen from the root. -/
  exclude : List String
  /-- Whether files that ignore files name are left out. -/
  respectIgnoreFiles : Bool
  /-- The number of files that are classified between two reports of progress. -/
  batchSize : Nat
  /-- Whether files may be checked at the same time. -/
  parallel : Bool
  report : ReportSettings
deriving DecidableEq, Repr

/-- The settings of reports where nothing else is asked for. -/
def ReportSettings.default : ReportSettings := ⟨"terminal", false⟩

namespace Settings

/-- The settings where nothing else is asked for. -/
def default : Settings where
  targets := [Path.ofString "src"]
  extensions := ["ts", "tsx", "js", "jsx", "png", "jpg", "jpeg", "gif", "svg"]
  exclude := ["**/node_modules/**", "**/dist/**"]
  respectIgnoreFiles := false
  batchSize := 10
  parallel := false
  report := ReportSettings.default

/-- The largest number that a setting can be: the largest one of 64 bits. -/
def maxCount : Nat := 18446744073709551615

/-- The bytes of an extension as they are compared: without dots in front, in small letters. -/
def plainExtension (extension : String) : Name :=
  ((Text.Utf8.ofString extension).dropWhile (· == dot)).map Source.lowerByte

/-- Whether files with this extension are candidates. -/
def acceptsExtension (s : Settings) (extension : Name) : Bool :=
  s.extensions.any fun e => plainExtension e = extension.map Source.lowerByte

/-- The batch size, at least one. -/
def effectiveBatchSize (s : Settings) : Nat := max s.batchSize 1

end Settings

end Unimported
