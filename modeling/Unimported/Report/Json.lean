/-
Reports as JSON.

There are two forms. The document is made for readers: it has a version and a summary with all
counts, and shows every path as text, whatever its bytes. The record holds the fields of the
report as they are, so it exists only where every path is text.
-/
import Unimported.Json.Value
import Unimported.Report.Basic

set_option autoImplicit false

namespace Unimported

/-- The number of seconds, as a double: seconds and parts of a second are rounded first, then
their sum. -/
def Duration.toDouble (d : Duration) : Number.Double :=
  .add (.ofRatio d.seconds 1) (.ofRatio d.nanos nanosPerSecond)

/-- A path that is no text has no place in a record. -/
structure PathNotText where
  path : Path
deriving DecidableEq, Repr

/-- What is wrong with the path, in words. -/
def PathNotText.message (_ : PathNotText) : String := "path contains invalid UTF-8 characters"

/-! ## The document -/

/-- An unused file in the document. -/
def UnusedFile.toDocument (f : UnusedFile) : Json.Value :=
  .object [
    ("file", .string f.path.display),
    ("component", .string f.token),
    ("extension", .string f.extension)]

namespace Report

/-- The version of the document. -/
def documentVersion : String := "1.0"

/-- The counts of a report. -/
def summary (r : Report) : Json.Value :=
  .object [
    ("total_scanned", .natural r.totalScanned),
    ("exporting_count", .natural r.exportingCount),
    ("used_count", .natural r.used.length),
    ("unused_count", .natural r.unused.length),
    ("elapsed_seconds", .real r.elapsed.toDouble)]

/-- The report as a document. -/
def document (r : Report) : Json.Value :=
  .object [
    ("version", .string documentVersion),
    ("summary", r.summary),
    ("unused", .array (r.unused.map UnusedFile.toDocument)),
    ("used", .array (r.used.map fun p => .string p.display))]

/-- The text of the document. -/
def toJson (r : Report) : String := r.document.indented

end Report

/-! ## The record -/

/-- A path in a record. -/
def Path.toRecord (p : Path) : Except PathNotText Json.Value :=
  match Text.Utf8.decode? p.bytes with
  | some text => .ok (.string (String.ofList text))
  | none => .error ⟨p⟩

/-- An unused file in a record. -/
def UnusedFile.toRecord (f : UnusedFile) : Except PathNotText Json.Value := do
  return .object [
    ("path", ← f.path.toRecord),
    ("token", .string f.token),
    ("extension", .string f.extension)]

namespace Report

/-- The report as a record, or the first path that is no text. -/
def record (r : Report) : Except PathNotText Json.Value := do
  let used ← r.used.mapM Path.toRecord
  let unused ← r.unused.mapM UnusedFile.toRecord
  return .object [
    ("total_scanned", .natural r.totalScanned),
    ("exporting_count", .natural r.exportingCount),
    ("used", .array used),
    ("unused", .array unused),
    ("elapsed_seconds", .real r.elapsed.toDouble)]

/-- The text of the record. -/
def serialize (r : Report) : Except PathNotText String := r.record.map Json.Value.compact

end Report

end Unimported
