/-
The partition: what a scan reports when the texts do not change.

With fixed texts it can be said without any reading what the report must be. The exporting files
are those with a readable text that exports something; one of them is used if another one, at a
path with other components, has a readable text in which a specifier contains the token of the
first. `run_reports_partition` is the main result: this is what is reported, in the order of the
candidates and with all repeats, whatever the batch size, whatever the turns of the workers, and
whether targets are checked at the same time or not.
-/
import Unimported.Proofs.Scan.Batches
import Unimported.Proofs.Scan.Phases
import Unimported.Proofs.Scan.Verdict
import Unimported.Proofs.Source.Mention
import Unimported.Proofs.Source.WellFormed

set_option autoImplicit false

namespace Unimported.Scan

open Source (File referenceToken dottedExtension)

/-! ## What must be reported

Each condition is stated on texts and components, and then shown to be what the checks
compute. That makes it decidable, so the report can be written with filters. -/

section Texts

variable (texts : Path → Except String String)

/-- The file can be read and its text exports something. -/
def Exports (file : File) : Prop :=
  ∃ text, texts file.path = .ok text ∧ Source.hasExports text.toList = true

/-- The file can be read and its text has a specifier that contains the token of the target. -/
def RefersTo (file target : File) : Prop :=
  ∃ text, texts file.path = .ok text ∧
    ∃ specifier ∈ Source.importedSpecifiers text.toList,
      (referenceToken target.path).toList <:+: specifier

/-- One of the files, at a path with other components, refers to the target. -/
def IsUsed (files : List File) (target : File) : Prop :=
  ∃ file ∈ files, file.path.components ≠ target.path.components ∧ RefersTo texts file target

variable {texts}

theorem exportsIn_iff {file : File} : exportsIn (texts file.path) = true ↔ Exports texts file := by
  cases h : texts file.path <;> simp [exportsIn, Exports, h]

theorem mentionsIn_iff {file target : File} :
    mentionsIn (referenceToken target.path) (texts file.path) = true ↔
      RefersTo texts file target := by
  cases h : texts file.path <;> simp [mentionsIn, RefersTo, h, Source.mentions_iff]

theorem mem_others {target : Path} {files : List File} {file : File} :
    file ∈ others target files ↔ file ∈ files ∧ file.path.components ≠ target.components := by
  simp [others, Path.same]

theorem any_others_iff {files : List File} {target : File} :
    ((others target.path files).any fun file =>
        mentionsIn (referenceToken target.path) (texts file.path)) = true ↔
      IsUsed texts files target := by
  simp only [List.any_eq_true, mem_others, mentionsIn_iff, IsUsed, and_assoc]

instance (file : File) : Decidable (Exports texts file) := decidable_of_iff _ exportsIn_iff

instance (files : List File) (target : File) : Decidable (IsUsed texts files target) :=
  decidable_of_iff _ any_others_iff

/-! ## Classification

The flag of a file comes from the one answer that its check got. The same reader always
gives the same answer, so turns make no difference, and batches come one after another. -/

variable (crew : Crew) (j : Journal)

/-- The flags of a batch are read off the texts, whatever the turns. -/
theorem flags_checkExports (purpose : Nat → Purpose) (turns : List Nat) (batch : List File) :
    (Check.inTurns (.fixed texts) purpose turns (batch.map checkExports) j).1
      = batch.map fun file => exportsIn (texts file.path) := by
  obtain ⟨record, -, hmade⟩ := inTurns_record (.fixed texts) purpose turns
    (batch.map checkExports) j
  refine hmade.results_eq_map fun file deeds flag hcomes hanswered => ?_
  -- the one answer that the check got is the one that the reader always gives
  obtain ⟨answer, rfl, rfl⟩ := comes_checkExports hcomes
  obtain ⟨_, hanswer⟩ := hanswered _ List.mem_cons_self
  exact congrArg exportsIn hanswer

/-- Batch after batch, exactly the exporting files are kept. -/
theorem classifyBatches_fixed (total done : Nat) (batches : List (List File)) :
    (crew.classifyBatches (.fixed texts) total done batches j).1
      = batches.flatten.filter fun file => Exports texts file := by
  have hfilter : ∀ batch : List File, (batch.filter fun file => exportsIn (texts file.path))
      = batch.filter fun file => Exports texts file := fun batch =>
    List.filter_congr fun file _ => by
      rw [Bool.eq_iff_iff, exportsIn_iff, decide_eq_true_iff]
  induction batches generalizing done j with
  | nil => rfl
  | cons batch batches ih =>
    simp only [Crew.classifyBatches, bind_apply, pure_apply, List.flatten_cons, List.filter_append,
      flags_checkExports, flagged_map, hfilter, ih]

theorem classify_fixed (batchSize : Nat) (files : List File) :
    (crew.classify (.fixed texts) batchSize files j).1
      = files.filter fun file => Exports texts file := by
  simp only [classify_apply, classifyBatches_fixed, flatten_batches]

/-! ## Cross-reference

A check goes through the other files until it finds a reference. Whether it finds one is
whether there is one, since the answers do not change while it looks. -/

/-- The flags of the targets are read off the texts, whatever the turns. -/
theorem flags_checkReference (purpose : Nat → Purpose) (turns : List Nat) (files : List File) :
    (Check.inTurns (.fixed texts) purpose turns (files.map (checkReference files)) j).1
      = files.map fun target => decide (IsUsed texts files target) := by
  obtain ⟨record, -, hmade⟩ := inTurns_record (.fixed texts) purpose turns
    (files.map (checkReference files)) j
  refine hmade.results_eq_map fun target deeds flag hcomes hanswered => ?_
  obtain ⟨searched, found, n, hsearch, rfl, rfl⟩ := comes_checkReference hcomes
  rw [hsearch.isSome_fixed fun deed hdeed => hanswered deed (List.mem_append_left _ hdeed),
    Bool.eq_iff_iff, any_others_iff, decide_eq_true_iff]

theorem crossReference_fixed (files : List File) :
    (crew.crossReference (.fixed texts) files j).1
      = ⟨files.filter fun target => IsUsed texts files target,
          files.filter fun target => ¬ IsUsed texts files target⟩ := by
  simp only [crossReference_apply, flags_checkReference, Classification.ofFlags_map, decide_not]

end Texts

/-! ## The report

The two phases, one after the other. What the first one keeps is what the second one starts
from. -/

/-- The report on candidates with fixed texts. -/
def reportOn (texts : Path → Except String String) (elapsed : Duration) (files : List File) :
    Report :=
  let exporting := files.filter fun file => Exports texts file
  .ofClassification files.length exporting.length
    ⟨exporting.filter fun target => IsUsed texts exporting target,
      exporting.filter fun target => ¬ IsUsed texts exporting target⟩ elapsed

theorem run_fixed {ε : Type} (crew : Crew) (texts : Path → Except String String)
    (batchSize : Nat) (elapsed : Duration) (log : List Log.Line) (files : List File)
    (j : Journal) :
    (crew.run (.fixed texts) batchSize elapsed (⟨log, .ok files⟩ : Found ε) j).1
      = .ok (reportOn texts elapsed files) := by
  simp only [run_ok_apply, classify_fixed, crossReference_fixed, reportOn]

/-- **A scan reports the partition.** With fixed texts and the candidates found, the scan succeeds;
it reports the number of candidates, the number of those that export something, and these parted
into the used and the unused ones, both in order. `detect` parts them the same way. -/
theorem run_reports_partition {ε : Type} (crew : Crew) (texts : Path → Except String String)
    (batchSize : Nat) (elapsed : Duration) (log : List Log.Line) (files : List File)
    (j : Journal) :
    let exporting := files.filter fun file => Exports texts file
    let used := exporting.filter fun target => IsUsed texts exporting target
    let unused := exporting.filter fun target => ¬ IsUsed texts exporting target
    (crew.run (.fixed texts) batchSize elapsed (⟨log, .ok files⟩ : Found ε) j).1 = .ok
        { totalScanned := files.length
          exportingCount := exporting.length
          used := used.map File.path
          unused := unused.map fun file =>
            ⟨file.path, referenceToken file.path, dottedExtension file.path⟩
          elapsed := elapsed } ∧
      (crew.detect (.fixed texts) batchSize files j).1 = ⟨used, unused⟩ := by
  intro exporting used unused
  constructor
  · simp only [run_ok_apply, classify_fixed, crossReference_fixed, Report.ofClassification]
    rfl
  · simp only [Crew.detect, bind_apply, classify_fixed, crossReference_fixed]
    rfl

/-! ## No import is missed

A well-formed import is captured wherever it stands, or something that contains its
specifier is. So the token of the target is in what is captured, and that makes the target
used. -/

/-- **No well-formed import is missed.** If a file at a path with other components has a text with a
well-formed import, and the specifier of the import contains the token of the target, then the
target is used, whatever else stands in that text. -/
theorem used_of_wellFormedImport (crew : Crew) (j : Journal)
    {texts : Path → Except String String} {files : List File} {target file : File} {text : String}
    {specifier : List Char} (htarget : target ∈ files) (hfile : file ∈ files)
    (hother : file.path.components ≠ target.path.components)
    (htext : texts file.path = .ok text)
    (htoken : (referenceToken target.path).toList <:+: specifier) (hne : specifier ≠ [])
    (hplain : Source.Plain specifier) (himport : Source.WellFormedImport specifier text.toList) :
    let c := (crew.crossReference (.fixed texts) files j).1
    target ∈ c.used ∧ target ∉ c.unused := by
  obtain ⟨captured, hcaptured, hinfix⟩ := Source.captured_of_wellFormed hne hplain himport
  have hrefers : RefersTo texts file target :=
    ⟨text, htext, captured, hcaptured, htoken.trans hinfix⟩
  have hused : IsUsed texts files target := ⟨file, hfile, hother, hrefers⟩
  simp only [crossReference_fixed, List.mem_filter, decide_eq_true_eq]
  exact ⟨⟨htarget, hused⟩, fun h => h.2 hused⟩

/-- A call of `require` in a comment is open when the import of `src/Widget.ts` begins, and does
not hide it. -/
theorem used_of_wellFormedImport_widget :
    let widget := File.ofPath ⟨Text.Utf8.ofString "src/Widget.ts"⟩
    let app := File.ofPath ⟨Text.Utf8.ofString "src/App.ts"⟩
    let text := "// require(\"\nimport W from \"./Widget\";\n"
    let c := ((Crew.single false).crossReference (.fixed fun _ => .ok text) [app, widget] .empty).1
    widget ∈ c.used ∧ widget ∉ c.unused := by
  intro widget app text
  have himport : Source.WellFormedImport "./Widget".toList text.toList := by
    have htext : text.toList = "// require(\"\n".toList ++ [] ++ "import".toList ++ " ".toList
        ++ "W from ".toList ++ [ '\"'] ++ "./Widget".toList ++ [ '\"'] ++ ";\n".toList := by decide
    have hblank : ∀ c ∈ " ".toList, Text.isBlank c = true := by
      rw [← List.all_eq_true]
      decide
    rw [htext]
    exact .statement (.inr (by decide)) (by decide) (by decide) hblank (by decide) (by decide)
      (by decide)
  have hwidget : widget ∈ [app, widget] := List.mem_cons_of_mem app List.mem_cons_self
  exact used_of_wellFormedImport (Crew.single false) .empty hwidget List.mem_cons_self (by decide)
    rfl (by decide) (by decide) (by decide) himport

end Unimported.Scan
