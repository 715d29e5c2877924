/-
Phases: what the parts of a scan add to the journal around their checks.

Each part of a scan tells the observer that it begins, has its checks made, writes a line to the
log and tells the observer that it has ended. The lemmas of this module say so in one equation a
part, so that what follows has to look at the checks alone.
-/
import Unimported.Scan.Run

set_option autoImplicit false

namespace Unimported.Scan

open Source (File)

/-- The line about the files that export something. -/
def exportingLine (exporting : List File) : Log.Line :=
  Log.info ("Found " ++ toString exporting.length ++ " files with exports")

/-- The line about the parts of a classification. -/
def partedLine (c : Classification) : Log.Line :=
  Log.info (toString c.used.length ++ " files in use, " ++ toString c.unused.length ++ " unused")

namespace Journal

/-- The journal when the files are known. -/
def discovered (j : Journal) (log : List Log.Line) (files : List File) : Journal :=
  { j with
    events := .finished .discover files.length :: .started .discover 0 :: j.events
    log := foundLine files :: (log.reverse ++ j.log) }

/-- The journal when classification begins. -/
def beginClassify (j : Journal) (total : Nat) : Journal :=
  { j with events := .started .classify total :: j.events }

/-- The journal when cross-reference begins. -/
def beginCrossReference (j : Journal) (total : Nat) : Journal :=
  { j with events := .started .crossReference total :: j.events, counted := 0 }

/-- The journal when a phase ends with a line in the log. -/
def endPhase (j : Journal) (phase : Phase) (count : Nat) (line : Log.Line) : Journal :=
  { j with events := .finished phase count :: j.events, log := line :: j.log }

variable (j : Journal) (q : Purpose)

@[simp] theorem askedFor_beginCrossReference (total : Nat) :
    (j.beginCrossReference total).askedFor q = j.askedFor q := rfl

@[simp] theorem askedFor_endPhase (phase : Phase) (count : Nat) (line : Log.Line) :
    (j.endPhase phase count line).askedFor q = j.askedFor q := rfl

end Journal

theorem noteAll_apply (lines : List Log.Line) (j : Journal) :
    noteAll lines j = ((), { j with log := lines.reverse ++ j.log }) := by
  induction lines generalizing j with
  | nil => rfl
  | cons line lines ih =>
    simp only [noteAll, bind_apply, ih, note, List.reverse_cons, List.append_assoc,
      List.cons_append, List.nil_append]

/-- A batch is reported by its last file, and an empty one is not reported. -/
theorem tellBatch_apply (done total : Nat) (batch : List File) (j : Journal) :
    tellBatch done total batch j = ((), { j with
      events := (batch.getLast?.map fun file =>
        Event.progressed .classify done total file.path).toList ++ j.events }) := by
  unfold tellBatch
  cases batch.getLast? <;> rfl

section Parts

variable (crew : Crew) (reader : Reader)

theorem classify_apply (batchSize : Nat) (files : List File) (j : Journal) :
    crew.classify reader batchSize files j =
      let made := crew.classifyBatches reader files.length 0 (batches batchSize files)
        (j.beginClassify files.length)
      (made.1, made.2.endPhase .classify made.1.length (exportingLine made.1)) := rfl

theorem crossReference_apply (files : List File) (j : Journal) :
    crew.crossReference reader files j =
      let made := Check.inTurns reader .reference crew.turnsAtTargets
        (files.map (checkReference files)) (j.beginCrossReference files.length)
      let c := Classification.ofFlags files made.1
      (c, made.2.endPhase .crossReference c.unused.length (partedLine c)) := rfl

variable {ε : Type} (batchSize : Nat) (elapsed : Duration) (log : List Log.Line) (j : Journal)

/-- A failed discovery ends the scan at once. -/
theorem run_error_apply (e : ε) :
    crew.run reader batchSize elapsed ⟨log, .error e⟩ j =
      (.error e, { j with
        events := .started .discover 0 :: j.events, log := log.reverse ++ j.log }) := by
  simp only [Crew.run, bind_apply, pure_apply, noteAll_apply]
  rfl

/-- After discovery the scan consists of classification and cross-reference. -/
theorem run_ok_apply (files : List File) :
    crew.run reader batchSize elapsed (⟨log, .ok files⟩ : Found ε) j =
      let kept := crew.classify reader batchSize files (j.discovered log files)
      let parted := crew.crossReference reader kept.1 kept.2
      (.ok (Report.ofClassification files.length kept.1.length parted.1 elapsed), parted.2) := by
  simp only [Crew.run, bind_apply, pure_apply, noteAll_apply]
  rfl

end Parts

end Unimported.Scan
