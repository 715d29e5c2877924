/-
Options: what the command line asks for.

Options go before the settings of a file: targets, extensions, batch size and format replace those
of the file, exclude patterns are added to them, and flags turn something on, never off.
-/
import Unimported.Log
import Unimported.Report.Format
import Unimported.Settings.Basic

set_option autoImplicit false

namespace Unimported

/-- What the command line asks for. -/
structure Options where
  /-- The root of the project, if it is given. -/
  path : Option Path
  /-- The settings file, if it is given. -/
  config : Option Path
  targets : List Path
  exclude : List String
  extensions : List String
  respectIgnoreFiles : Bool
  format : Option Report.Format
  /-- The file to write the document to, if it is given. -/
  output : Option Path
  batchSize : Option Nat
  parallel : Bool
  showUsed : Bool
  noProgress : Bool
  verbose : Bool
  quiet : Bool
deriving DecidableEq, Repr

namespace Options

/-- The options of an empty command line. -/
def empty : Options where
  path := none
  config := none
  targets := []
  exclude := []
  extensions := []
  respectIgnoreFiles := false
  format := none
  output := none
  batchSize := none
  parallel := false
  showUsed := false
  noProgress := false
  verbose := false
  quiet := false

/-- The root of the project: the working directory unless another one is given. -/
def root (o : Options) : Path := o.path.getD (Path.ofString ".")

/-- The list that an option gives, or else that of the settings. -/
def orElse {α : Type} (given settings : List α) : List α :=
  if given.isEmpty then settings else given

/-- The settings of a run. -/
def override (o : Options) (s : Settings) : Settings where
  targets := orElse o.targets s.targets
  extensions := orElse o.extensions s.extensions
  exclude := s.exclude ++ o.exclude
  respectIgnoreFiles := o.respectIgnoreFiles || s.respectIgnoreFiles
  batchSize := o.batchSize.getD s.batchSize
  parallel := o.parallel || s.parallel
  report :=
    ⟨(o.format.map Report.Format.name).getD s.report.format, o.showUsed || s.report.showUsed⟩

/-- Whether a line of the log is shown. -/
def shows (o : Options) (l : Log.Line) : Bool :=
  if o.quiet then false
  else if o.verbose then l.level != .trace
  else l.level == .warn

end Options

end Unimported
