/-
Detection: which of the candidate files export something, and which of those nobody refers to.

Classification reads every file once and keeps those that export. Cross-reference then takes the
exporting files one by one and searches the other ones, in order, for the first whose text
mentions the file's reference token in a specifier; the search stops there. A file that cannot
be read is logged and counts as one that exports nothing and mentions nobody, so a scan never
fails because of it.

Looking at one file is a check, and the checks of one batch, and those of all targets if that is
asked for, are shared by the workers of a crew. Batches follow each other.
-/
import Unimported.Scan.Check
import Unimported.Source.Export
import Unimported.Source.File
import Unimported.Source.Import

set_option autoImplicit false

namespace Unimported.Scan

open Source (File referenceToken)

/-! ## Crews -/

/-- The workers of a scan: whether they may check targets at the same time, and the turns that
they take. -/
structure Crew where
  parallel : Bool
  /-- The turns in the batch whose first file is the candidate at this place. -/
  batchTurns : Nat → List Nat
  /-- The turns at the targets. -/
  targetTurns : List Nat

namespace Crew

/-- A single worker, who makes all checks in order. -/
def single (parallel : Bool) : Crew := ⟨parallel, fun _ => [], []⟩

/-- The turns that are taken at the targets. -/
def turnsAtTargets (crew : Crew) : List Nat := if crew.parallel then crew.targetTurns else []

end Crew

/-! ## Single files -/

/-- The line about a file that cannot be read. -/
def unreadable (p : Path) (reason : String) : Log.Line :=
  Log.warn ("Skipping unreadable file " ++ p.display ++ ": " ++ reason)

/-- The line about whether a file exports anything. -/
def exportsLine (p : Path) (exporting : Bool) : Log.Line :=
  Log.debug (p.display ++ ": exports=" ++ (if exporting then "true" else "false"))

/-- Reads a file and says whether it exports anything. -/
def checkExports (file : File) : Check Bool := do
  match ← Check.ask file.path with
  | .ok text =>
    let exporting := Source.hasExports text.toList
    Check.log (exportsLine file.path exporting)
    return exporting
  | .error reason =>
    Check.log (unreadable file.path reason)
    return false

/-- The first of the files, the one at `target` left out, that mentions the token. -/
def firstMention (target : Path) (token : String) : List File → Check (Option File)
  | [] => return none
  | file :: files =>
    if file.path.same target then firstMention target token files
    else do
      match ← Check.ask file.path with
      | .ok text =>
        if Source.mentions text.toList token.toList then return some file
        else firstMention target token files
      | .error reason =>
        Check.log (unreadable file.path reason)
        firstMention target token files

/-- The line about what the search for a reference to the target came to. -/
def referenceLine (target : Path) (token : String) : Option File → Log.Line
  | some file =>
    Log.debug (target.display ++ " (" ++ token ++ ") is imported by " ++ file.path.display)
  | none => Log.debug (target.display ++ " (" ++ token ++ ") is not imported")

/-- The first other file that refers to the target. -/
def searchReference (target : File) (files : List File) : Check (Option File) := do
  let token := referenceToken target.path
  let found ← firstMention target.path token files
  Check.log (referenceLine target.path token found)
  return found

/-- Whether another one of the files refers to the target; then counts the target as checked. -/
def checkReference (files : List File) (target : File) : Check Bool := do
  let found ← searchReference target files
  let finished ← Check.tally
  Check.report (.progressed .crossReference finished files.length target.path)
  return found.isSome

/-! ## Classification -/

/-- The number of files that are classified between two reports of progress, by default. -/
def defaultBatchSize : Nat := 10

/-- Cuts a list into at most `fuel` pieces of the given size; the last one may be shorter. -/
def batchesUpTo {α : Type} (size : Nat) : Nat → List α → List (List α)
  | 0, _ => []
  | _ + 1, [] => []
  | fuel + 1, a :: rest =>
    (a :: rest).take size :: batchesUpTo size fuel ((a :: rest).drop size)

/-- Cuts a list into pieces of the given size, which counts as one if it is zero. -/
def batches {α : Type} (size : Nat) (items : List α) : List (List α) :=
  batchesUpTo (max size 1) items.length items

/-- Tells the observer that a batch is classified, and `done` of `total` files with it. -/
def tellBatch (done total : Nat) (batch : List File) : Scan Unit :=
  match batch.getLast? with
  | some file => tell (.progressed .classify done total file.path)
  | none => return ()

/-- The files whose flags are set, in order. -/
def flagged : List File → List Bool → List File
  | file :: files, flag :: flags =>
    if flag then file :: flagged files flags else flagged files flags
  | _, _ => []

/-- Exporting files, parted by whether another one refers to them. -/
structure Classification where
  used : List File
  unused : List File
deriving DecidableEq, Repr

namespace Classification

/-- The number of files in both parts. -/
def length (c : Classification) : Nat := c.used.length + c.unused.length

/-- Whether both parts are empty. -/
def isEmpty (c : Classification) : Bool := c.used.isEmpty && c.unused.isEmpty

/-- Adds a file in front of the part that it belongs to. -/
def cons (file : File) (used : Bool) (c : Classification) : Classification :=
  if used then { c with used := file :: c.used } else { c with unused := file :: c.unused }

/-- Parts files by their flags, which tell whether they are used. -/
def ofFlags : List File → List Bool → Classification
  | file :: files, used :: flags => (ofFlags files flags).cons file used
  | _, _ => ⟨[], []⟩

end Classification

namespace Crew

/-- Classifies batch after batch, `done` of `total` files having been classified before. -/
def classifyBatches (crew : Crew) (reader : Reader) (total : Nat) :
    Nat → List (List File) → Scan (List File)
  | _, [] => return []
  | done, batch :: batches => do
    let flags ← Check.inTurns reader (fun i => .exports (done + i)) (crew.batchTurns done)
      (batch.map checkExports)
    let done := done + batch.length
    tellBatch done total batch
    let others ← classifyBatches crew reader total done batches
    return flagged batch flags ++ others

/-- The files that export something, in order. -/
def classify (crew : Crew) (reader : Reader) (batchSize : Nat) (files : List File) :
    Scan (List File) := do
  tell (.started .classify files.length)
  let exporting ← crew.classifyBatches reader files.length 0 (batches batchSize files)
  note (Log.info ("Found " ++ toString exporting.length ++ " files with exports"))
  tell (.finished .classify exporting.length)
  return exporting

/-! ## Cross-reference -/

/-- Parts the files by whether another one of them refers to them. -/
def crossReference (crew : Crew) (reader : Reader) (files : List File) :
    Scan Classification := do
  tell (.started .crossReference files.length)
  restartCount
  let flags ← Check.inTurns reader .reference crew.turnsAtTargets
    (files.map (checkReference files))
  let c := Classification.ofFlags files flags
  note (Log.info
    (toString c.used.length ++ " files in use, " ++ toString c.unused.length ++ " unused"))
  tell (.finished .crossReference c.unused.length)
  return c

/-- Classifies the files and parts those that export something. -/
def detect (crew : Crew) (reader : Reader) (batchSize : Nat) (files : List File) :
    Scan Classification := do
  let exporting ← crew.classify reader batchSize files
  crew.crossReference reader exporting

end Crew

/-! ## A single worker -/

/-- The files that export something, in order. -/
def classify (reader : Reader) (batchSize : Nat) (files : List File) : Scan (List File) :=
  (Crew.single false).classify reader batchSize files

/-- The first other file that refers to the target. -/
def findReference (reader : Reader) (target : File) (files : List File) : Scan (Option File) :=
  (searchReference target files).run reader (.reference 0)

/-- Parts the files by whether another one of them refers to them. -/
def crossReference (reader : Reader) (files : List File) : Scan Classification :=
  (Crew.single false).crossReference reader files

/-- Classifies the files and parts those that export something. -/
def detect (reader : Reader) (batchSize : Nat) (files : List File) : Scan Classification :=
  (Crew.single false).detect reader batchSize files

end Unimported.Scan
