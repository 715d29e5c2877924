/-
Reports: the outcome of a scan, as it is handed to a renderer.
-/
import Unimported.Scan.Detect

set_option autoImplicit false

namespace Unimported

/-- How long something took: whole seconds and billionths of a second. -/
structure Duration where
  seconds : Nat
  nanos : Nat
deriving DecidableEq, Repr

/-- The billionths of a second in one. -/
def nanosPerSecond : Nat := 1000000000

/-- So many billionths of a second. -/
def Duration.ofNanos (n : Nat) : Duration := ⟨n / nanosPerSecond, n % nanosPerSecond⟩

/-- A file that nobody refers to, with the token it was searched by. -/
structure UnusedFile where
  path : Path
  token : String
  /-- The extension with its dot, or nothing. -/
  extension : String
deriving DecidableEq, Repr

/-- The entry for the file. -/
def UnusedFile.ofFile (file : Source.File) : UnusedFile :=
  ⟨file.path, Source.referenceToken file.path, Source.dottedExtension file.path⟩

/-- The outcome of a scan. -/
structure Report where
  totalScanned : Nat
  exportingCount : Nat
  used : List Path
  unused : List UnusedFile
  elapsed : Duration
deriving DecidableEq, Repr

namespace Report

/-- The report on classified files. -/
def ofClassification (totalScanned exportingCount : Nat) (c : Scan.Classification)
    (elapsed : Duration) : Report :=
  ⟨totalScanned, exportingCount, c.used.map Source.File.path, c.unused.map UnusedFile.ofFile,
    elapsed⟩

/-- Whether any file is unused. -/
def hasUnused (r : Report) : Bool := !r.unused.isEmpty

end Report

end Unimported
