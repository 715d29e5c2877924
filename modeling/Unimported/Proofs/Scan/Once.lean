/-
Each file once: what a report says about the paths in it.

A verdict depends on the components of a path and not on its spelling: the token does, and so does
the choice of the other files that are searched. So two entries for one file never end on
different sides. On a disk discovery gives each file once and in order, both sides keep that
order, and no file is on both. `reports_each_file_once` is the main result.
-/
import Unimported.Proofs.Discovery.Candidates
import Unimported.Proofs.Scan.Partition
import Unimported.Proofs.Source.Reference
import Unimported.Scan.Project

set_option autoImplicit false

namespace Unimported.Scan

open Source (File)

/-! ## Verdicts and spellings

Where the path of a target is used, its components are: they give the token, and they tell
which files are other files. -/

section Texts

variable {texts : Path → Except String String} {files : List File} {target target' : File}

theorem refersTo_congr {file : File} (h : target.path.components = target'.path.components) :
    RefersTo texts file target ↔ RefersTo texts file target' := by
  unfold RefersTo
  rw [Source.referenceToken_congr h]

/-- **Two spellings of one path are used or unused together.** -/
theorem isUsed_of_components_eq (h : target.path.components = target'.path.components) :
    IsUsed texts files target ↔ IsUsed texts files target' := by
  simp only [IsUsed, h, refersTo_congr h]

end Texts

/-! ## The two sides

The sides are a filter and its complement, so together they are the files in another order,
and what holds of any two different files holds across the sides as well. -/

section Sides

variable {files : List File} {p : File → Prop} [DecidablePred p]

/-- Two complementary parts of a list together are as long as the list. -/
theorem length_filter_add_length_filter_not :
    (files.filter fun file => p file).length + (files.filter fun file => ¬ p file).length
      = files.length := by
  rw [← List.length_append]
  simpa only [decide_not] using
    (List.filter_append_perm (fun file => decide (p file)) files).length_eq

/-- If all files of a list are different, no path stands on both sides of a test, nor twice on one
side. -/
theorem pairwise_sides (h : files.Pairwise fun f g => f.path.components ≠ g.path.components) :
    ((files.filter fun file => p file).map File.path
      ++ (files.filter fun file => ¬ p file).map File.path).Pairwise
      fun p q => p.components ≠ q.components := by
  have hperm : ((files.filter fun file => p file) ++ files.filter fun file => ¬ p file).Perm
      files := by
    simpa only [decide_not] using List.filter_append_perm (fun file => decide (p file)) files
  rw [← List.map_append]
  exact List.pairwise_map.2 ((hperm.pairwise_iff Ne.symm).2 h)

end Sides

/-! ## On a disk

A disk answers each reading alike, so it is one of the readers with fixed texts, and the
outcome of a scan is known from those. -/

/-- The texts of a disk; a reason in words where there is none. -/
def textsOf (d : Disk) : Path → Except String String :=
  fun p => (d.readLossy p).mapError Trouble.message

theorem ofDisk_eq_fixed (d : Disk) : Reader.ofDisk d = .fixed (textsOf d) := rfl

/-- The outcome of a scan: the report on the files that are found. Neither workers nor batches
matter, nor what happened before. -/
theorem projectIn_outcome (room : Glob.Room) (texts : Path → Except String String) (d : Disk)
    (s : Settings) (root : Path) (elapsed : Duration) (j : Journal) :
    (projectIn room (.fixed texts) d s root elapsed j).1
      = (Discovery.findIn room d s root).files.map (reportOn texts elapsed) := by
  rw [projectIn]
  obtain ⟨log, files⟩ := Discovery.findIn room d s root
  cases files with
  | error e =>
    rw [run_error_apply]
    rfl
  | ok files => exact run_fixed _ _ _ _ _ _ _

theorem project_outcome (d : Disk) (s : Settings) (root : Path) (elapsed : Duration)
    (j : Journal) :
    (project d s root elapsed j).1
      = (Discovery.find d s root).files.map (reportOn (textsOf d) elapsed) :=
  projectIn_outcome .unbounded (textsOf d) d s root elapsed j

/-- What discovery finds stands in strict order. -/
theorem before_of_find {d : Disk} {s : Settings} {root : Path} {files : List File}
    (h : (Discovery.find d s root).files = .ok files) :
    files.Pairwise fun f g => f.path.Before g.path := by
  unfold Discovery.find Discovery.findIn at h
  split at h
  · cases h
  · split at h
    · cases h
    · split at h
      · cases h
      · cases h
        exact Discovery.arrange_before _

/-! ## Reports

Discovery gives the files in strict order. The exporting ones are some of them in the same
order, and each side has some of those, so no step can bring in a repeat or change the
order. -/

/-- **A report names each file once, in order.** Entries whose paths have the same components end on
the same side of a cross-reference, so none of them is both used and unused. And if discovery
succeeds on a disk, so does the scan, whatever the workers and their turns: the used files stand in
strict order, so do the unused ones, no file is named twice in either list or in both, only
discovered files are named, and both lists together have as many files as are counted as exporting,
which are at most as many as are counted as scanned. -/
theorem reports_each_file_once :
    (∀ (crew : Crew) (texts : Path → Except String String) (files : List File) (j : Journal),
      let c := (crew.crossReference (.fixed texts) files j).1
      (∀ f ∈ files, ∀ g ∈ files, f.path.components = g.path.components →
        (f ∈ c.used ↔ g ∈ c.used) ∧ (f ∈ c.unused ↔ g ∈ c.unused)) ∧
      ∀ f ∈ c.used, ∀ g ∈ c.unused, f.path.components ≠ g.path.components) ∧
    (∀ (crew : Crew) (d : Disk) (s : Settings) (root : Path) (elapsed : Duration) (j : Journal)
      (files : List File), (Discovery.find d s root).files = .ok files →
      ∃ report, (crew.run (.ofDisk d) s.effectiveBatchSize elapsed
          (Discovery.find d s root) j).1 = .ok report ∧
        let unused := report.unused.map UnusedFile.path
        report.used.Pairwise Path.Before ∧ unused.Pairwise Path.Before ∧
        (report.used ++ unused).Pairwise (fun p q => p.components ≠ q.components) ∧
        (∀ p ∈ report.used ++ unused, p ∈ files.map File.path) ∧
        report.exportingCount = report.used.length + report.unused.length ∧
        report.exportingCount ≤ report.totalScanned ∧ report.totalScanned = files.length) := by
  refine ⟨fun crew texts files j => ?_, fun crew d s root elapsed j files hfiles => ?_⟩
  · simp only [crossReference_fixed, List.mem_filter, decide_eq_true_eq]
    constructor
    · intro f hf g hg hsame
      have hiff : IsUsed texts files f ↔ IsUsed texts files g := isUsed_of_components_eq hsame
      simp only [hf, hg, hiff, true_and, and_self]
    · rintro f ⟨hf, hused⟩ g ⟨hg, hunused⟩ hsame
      exact hunused ((isUsed_of_components_eq hsame).1 hused)
  · have hbefore := before_of_find hfiles
    generalize Discovery.find d s root = found at hfiles
    obtain ⟨log, found⟩ := found
    obtain rfl : found = .ok files := hfiles
    rw [ofDisk_eq_fixed]
    refine ⟨_, run_fixed crew (textsOf d) s.effectiveBatchSize elapsed log files j, ?_⟩
    rw [reportOn, Report.ofClassification]
    -- the exporting files stand in the order of all files
    generalize hexporting : (files.filter fun file => Exports (textsOf d) file) = exporting
    have hsub : exporting.Sublist files := hexporting ▸ List.filter_sublist
    have hordered := hbefore.sublist hsub
    have hdistinct := pairwise_sides (p := IsUsed (textsOf d) exporting)
      (hordered.imp fun h => h.2)
    simp only [List.map_map]
    refine ⟨?_, ?_, hdistinct, ?_, ?_, hsub.length_le, trivial⟩
    · exact List.pairwise_map.2 (hordered.sublist List.filter_sublist)
    · exact List.pairwise_map.2 (hordered.sublist List.filter_sublist)
    · intro p hp
      rw [List.mem_append, List.mem_map, List.mem_map] at hp
      obtain ⟨file, hfile, rfl⟩ | ⟨file, hfile, rfl⟩ := hp
      · exact List.mem_map_of_mem (hsub.subset (List.mem_of_mem_filter hfile))
      · exact List.mem_map_of_mem (hsub.subset (List.mem_of_mem_filter hfile))
    · rw [List.length_map, List.length_map]
      exact length_filter_add_length_filter_not.symm

/-- Two spellings of a file that another one imports, and a scan of the disk with both files. -/
theorem reports_each_file_once_pair :
    let text := Text.Utf8.ofString
    let tree := ((Node.directory .nil).put [text "src", text "A.ts"]
      (.file (text "export default 1"))).put [text "src", text "B.ts"]
      (.file (text "import A from './A'; export *"))
    let d : Disk := ⟨tree, []⟩
    let s := { Settings.default with exclude := [] }
    let root := Path.ofString "."
    let crew := Crew.single false
    let spelled := File.ofPath ∘ Path.ofString
    let files := [spelled "src/A.ts", spelled "src/.//A.ts", spelled "src/B.ts"]
    let c := (crew.crossReference (.fixed (textsOf d)) files .empty).1
    (spelled "src/A.ts").path.components = (spelled "src/.//A.ts").path.components ∧
    spelled "src/A.ts" ∈ c.used ∧ spelled "src/.//A.ts" ∈ c.used ∧
    ∃ files, (Discovery.find d s root).files = .ok files ∧
      ∃ report, (crew.run (.ofDisk d) s.effectiveBatchSize ⟨0, 0⟩
          (Discovery.find d s root) .empty).1 = .ok report ∧
        report.used.Pairwise Path.Before ∧ report.totalScanned = 2 := by
  intro text tree d s root crew spelled files c
  have hsame : (spelled "src/A.ts").path.components = (spelled "src/.//A.ts").path.components := by
    decide +kernel
  have hfirst : spelled "src/A.ts" ∈ files := by decide +kernel
  have hsecond : spelled "src/.//A.ts" ∈ files := by decide +kernel
  have hused : spelled "src/A.ts" ∈ c.used := by decide +kernel
  have hroot : d.hasDirectory root = true := by decide +kernel
  have hpaths : (Discovery.starts s root).flatMap (Discovery.pathsFrom d s [] root)
      = [Path.ofString "./src/A.ts", Path.ofString "./src/B.ts"] := by decide +kernel
  have hbefore : [Path.ofString "./src/A.ts", Path.ofString "./src/B.ts"].Pairwise
      Path.Before := by decide +kernel
  have hexcludes : s.excludes = .ok [] := rfl
  obtain ⟨hcross, hscan⟩ := reports_each_file_once
  have hsides := (hcross crew (textsOf d) files .empty).1 _ hfirst _ hsecond hsame
  -- from here on only the general theorem is used
  clear_value d s root crew spelled files
  have hfiles := Discovery.find_files_of_before hroot hexcludes hpaths hbefore
  obtain ⟨report, hreport, hused', -, -, -, -, -, htotal⟩ :=
    hscan crew d s root ⟨0, 0⟩ .empty _ hfiles
  exact ⟨hsame, hused, hsides.1.1 hused, _, hfiles, report, hreport, hused', htotal⟩

end Unimported.Scan
