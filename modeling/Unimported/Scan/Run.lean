/-
A whole scan: discovery, classification and cross-reference, and the report on them.
-/
import Unimported.Report.Basic

set_option autoImplicit false

namespace Unimported.Scan

/-- What discovery came to: the lines it logged, and the files or the reason why there are none. -/
structure Found (ε : Type) where
  log : List Log.Line
  files : Except ε (List Source.File)

/-- Writes lines to the log. -/
def noteAll : List Log.Line → Scan Unit
  | [] => return ()
  | line :: lines => do
    note line
    noteAll lines

/-- The line about the discovered files. -/
def foundLine (files : List Source.File) : Log.Line :=
  let tally := Source.Tally.ofFiles files
  Log.info ("Found " ++ toString tally.total ++ " files to analyze (" ++ toString tally.scripts
    ++ " scripts, " ++ toString tally.assets ++ " assets)")

/-- Scans what discovery has found. The scan fails exactly when discovery did. -/
def Crew.run {ε : Type} (crew : Crew) (reader : Reader) (batchSize : Nat) (elapsed : Duration)
    (found : Found ε) : Scan (Except ε Report) := do
  tell (.started .discover 0)
  noteAll found.log
  match found.files with
  | .error e => return .error e
  | .ok files =>
    tell (.finished .discover files.length)
    note (foundLine files)
    let exporting ← crew.classify reader batchSize files
    let c ← crew.crossReference reader exporting
    return .ok (Report.ofClassification files.length exporting.length c elapsed)

/-- Scans what discovery has found, with a single worker. -/
def run {ε : Type} (reader : Reader) (batchSize : Nat) (elapsed : Duration) (found : Found ε) :
    Scan (Except ε Report) :=
  (Crew.single false).run reader batchSize elapsed found

end Unimported.Scan
