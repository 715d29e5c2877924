/-
Overlays: settings of which some are given.

A settings document gives some fields and leaves the others as they are. What it gives is read
field by field, in whatever form the document has its values; fields of unknown names say
nothing, and a known one may be given once.
-/
import Unimported.Settings.Basic

set_option autoImplicit false

namespace Unimported.Settings

/-- What is wrong with a document that is otherwise well-formed. -/
inductive Mismatch where
  /-- The document is no table of fields. -/
  | notATable
  /-- The name of a field is no text. -/
  | badName
  /-- A field is given twice. -/
  | duplicateField (name : String)
  /-- The value of a field is of the wrong kind, or out of range. -/
  | wrongKind (name : String)
deriving DecidableEq, Repr

/-- Settings of reports of which some are given. -/
structure ReportOverlay where
  format : Option String
  showUsed : Option Bool
deriving DecidableEq, Repr

/-- Settings of which some are given. -/
structure Overlay where
  targets : Option (List Path)
  extensions : Option (List String)
  exclude : Option (List String)
  respectIgnoreFiles : Option Bool
  batchSize : Option Nat
  parallel : Option Bool
  report : Option ReportOverlay
deriving DecidableEq, Repr

namespace ReportOverlay

/-- No settings of reports. -/
def none : ReportOverlay := ⟨Option.none, Option.none⟩

/-- Lays the given settings of reports over the others. -/
def apply (o : ReportOverlay) (s : ReportSettings) : ReportSettings :=
  ⟨o.format.getD s.format, o.showUsed.getD s.showUsed⟩

end ReportOverlay

namespace Overlay

/-- No settings. -/
def none : Overlay :=
  ⟨Option.none, Option.none, Option.none, Option.none, Option.none, Option.none, Option.none⟩

/-- Lays the given settings over the others. -/
def apply (o : Overlay) (s : Settings) : Settings where
  targets := o.targets.getD s.targets
  extensions := o.extensions.getD s.extensions
  exclude := o.exclude.getD s.exclude
  respectIgnoreFiles := o.respectIgnoreFiles.getD s.respectIgnoreFiles
  batchSize := o.batchSize.getD s.batchSize
  parallel := o.parallel.getD s.parallel
  report := match o.report with
    | Option.none => s.report
    | some r => r.apply s.report

end Overlay

/-! ## Reading fields -/

/-- How a form of documents shows its values: as a text, as a list of texts, as a truth value, as
a number of 64 bits, or as the settings of reports. -/
structure ValueReader (ν : Type) where
  text : ν → Option String
  texts : ν → Option (List String)
  truth : ν → Option Bool
  count : ν → Option Nat
  report : ν → Except Mismatch ReportOverlay

namespace ValueReader

variable {ν : Type}

/-- Reads the value of a field that has none yet. -/
def take {α : Type} (name : String) (old : Option α) (new : Option α) : Except Mismatch α :=
  match old, new with
  | some _, _ => .error (.duplicateField name)
  | none, some a => .ok a
  | none, none => .error (.wrongKind name)

/-- Adds a field to the settings of reports. -/
def addReportField (r : ValueReader ν) (o : ReportOverlay) (name : String) (value : ν) :
    Except Mismatch ReportOverlay :=
  if name = "format" then do
    return { o with format := some (← take name o.format (r.text value)) }
  else if name = "show_used" then do
    return { o with showUsed := some (← take name o.showUsed (r.truth value)) }
  else .ok o

/-- Adds a field to the settings. -/
def addField (r : ValueReader ν) (o : Overlay) (name : String) (value : ν) :
    Except Mismatch Overlay :=
  if name = "targets" then do
    let targets := (r.texts value).map fun ts => ts.map Path.ofString
    return { o with targets := some (← take name o.targets targets) }
  else if name = "extensions" then do
    return { o with extensions := some (← take name o.extensions (r.texts value)) }
  else if name = "exclude" then do
    return { o with exclude := some (← take name o.exclude (r.texts value)) }
  else if name = "respect_gitignore" then do
    return { o with
      respectIgnoreFiles := some (← take name o.respectIgnoreFiles (r.truth value)) }
  else if name = "batch_size" then do
    return { o with batchSize := some (← take name o.batchSize (r.count value)) }
  else if name = "parallel" then do
    return { o with parallel := some (← take name o.parallel (r.truth value)) }
  else if name = "report" then do
    if o.report.isSome then throw (.duplicateField name)
    return { o with report := some (← r.report value) }
  else .ok o

/-- The settings of reports that the fields give. -/
def reportOf (r : ValueReader ν) (fields : List (String × ν)) : Except Mismatch ReportOverlay :=
  fields.foldlM (fun o f => r.addReportField o f.1 f.2) ReportOverlay.none

/-- The settings that the fields give. -/
def overlayOf (r : ValueReader ν) (fields : List (String × ν)) : Except Mismatch Overlay :=
  fields.foldlM (fun o f => r.addField o f.1 f.2) Overlay.none

end ValueReader

end Unimported.Settings
