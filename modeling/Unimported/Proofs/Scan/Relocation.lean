/-
Relocation: a scan does not depend on where a project lies.

Discovery joins the root to all paths, and everything after it sees them whole. But nothing of what
it does with them depends on the root: exclude patterns see a path from the root, files are put in
order by what follows the components that they share, tokens come from the last two components, and
paths are told apart by components. So a scan, seen from its root, is a scan of the tree by itself,
and two scans of one tree at two roots agree: `relocated_scans_agree`. Only the lengths of paths can
tell two roots apart.
-/
import Unimported.Proofs.Discovery.Below
import Unimported.Proofs.Scan.Once

set_option autoImplicit false

namespace Unimported

open Source (File)

/-! ## Reports seen from a root

To compare two reports their paths must be seen from the roots. For paths that do not lie
below the root this changes nothing, so that all do is a statement of its own. -/

namespace Report

/-- The report with its paths as they are seen from a root. -/
def seenFrom (root : Path) (r : Report) : Report :=
  { r with
    used := r.used.map fun p => p.relativeTo root
    unused := r.unused.map fun file => { file with path := file.path.relativeTo root } }

/-- Whether all paths in the report lie below a root. -/
def LiesBelow (root : Path) (r : Report) : Prop :=
  ∀ p ∈ r.used ++ r.unused.map UnusedFile.path, ∃ q, p.stripBase? root = some q

end Report

namespace Scan

open Discovery (Inside IsTarget LiesAt moved filesWithin textWithin)

section Moved

variable {tree : Entries} {root : Path} {texts texts' : Path → Except String String}
  {files : List File}

/-- A test that does not see where files lie picks out the same of them. -/
theorem filter_moved {p p' : File → Prop} [DecidablePred p] [DecidablePred p']
    (h : ∀ f ∈ files, (p' (moved root f) ↔ p f)) :
    ((files.map (moved root)).filter fun f => p' f)
      = (files.filter fun f => p f).map (moved root) := by
  rw [List.filter_map]
  refine congrArg _ (List.filter_congr fun f hf => ?_)
  exact decide_eq_decide.2 (h f hf)

/-- What the files refer to does not depend on where they lie. -/
theorem isUsed_moved {target : File} (hroot : root.bytes ≠ [])
    (hinside : ∀ f ∈ files, Inside tree f.path)
    (htexts : ∀ f ∈ files, texts' (root.join f.path) = texts f.path) (htarget : target ∈ files) :
    IsUsed texts' (files.map (moved root)) (moved root target) ↔ IsUsed texts files target := by
  have hcomponents : ∀ f ∈ files,
      (moved root f).path.components = root.components ++ f.path.components :=
    fun f hf => (hinside f hf).components_join hroot
  have htoken := Source.referenceToken_of_append (hcomponents target htarget)
    (hinside target htarget).components_length
  simp only [IsUsed, List.mem_map, exists_exists_and_eq_and]
  -- the components of the root stand in front of all paths, and tell none of them apart
  refine exists_congr fun f => and_congr_right fun hf => ?_
  rw [hcomponents f hf, hcomponents target htarget, RefersTo, RefersTo, htoken, ne_eq,
    List.append_cancel_left_eq]
  exact and_congr_right fun _ => by rw [moved, htexts f hf]

/-- The entries for files that lie below a root, seen from the root, are those for the files where
they were. -/
theorem ofClassification_moved {used unused : List File} (hroot : root.bytes ≠ [])
    (hused : ∀ f ∈ used, Inside tree f.path) (hunused : ∀ f ∈ unused, Inside tree f.path)
    (totalScanned exportingCount : Nat) (elapsed : Duration) :
    let report := Report.ofClassification totalScanned exportingCount
      ⟨used.map (moved root), unused.map (moved root)⟩ elapsed
    report.seenFrom root
        = Report.ofClassification totalScanned exportingCount ⟨used, unused⟩ elapsed ∧
      report.LiesBelow root := by
  have hrelative : ∀ f : File, Inside tree f.path →
      (moved root f).path.relativeTo root = f.path := fun f hf =>
    Path.relativeTo_join hroot hf.named.inner.relative hf.trimmed
  intro report
  constructor
  · have hpaths : report.used.map (fun p => p.relativeTo root) = used.map File.path := by
      simp only [report, Report.ofClassification, List.map_map]
      exact List.map_congr_left fun f hf => hrelative f (hused f hf)
    have hentries : report.unused.map (fun file => { file with path := file.path.relativeTo root })
        = unused.map UnusedFile.ofFile := by
      simp only [report, Report.ofClassification, List.map_map]
      refine List.map_congr_left fun f hf => ?_
      have hf := hunused f hf
      -- token and extension come from the last components, which a move keeps
      have htoken := Source.referenceToken_of_append (hf.components_join hroot)
        hf.components_length
      have hextension := Source.dottedExtension_of_append (hf.components_join hroot)
        hf.components_ne_nil
      simp only [Function.comp_apply, UnusedFile.ofFile, hrelative f hf]
      rw [moved, htoken, hextension]
    rw [Report.seenFrom, hpaths, hentries]
    rfl
  · intro p hp
    have hmem : ∃ f : File, Inside tree f.path ∧ (moved root f).path = p := by
      simp only [report, Report.ofClassification, List.map_map, List.mem_append, List.mem_map] at hp
      obtain ⟨f, hf, rfl⟩ | ⟨f, hf, rfl⟩ := hp
      · exact ⟨f, hused f hf, rfl⟩
      · exact ⟨f, hunused f hf, rfl⟩
    obtain ⟨f, hf, rfl⟩ := hmem
    exact ⟨_, Path.stripBase?_join hroot hf.named.inner.relative⟩

/-- **The report on files that lie below a root**, seen from the root, is the report on them where
they were. -/
theorem reportOn_moved (hroot : root.bytes ≠ []) (hinside : ∀ f ∈ files, Inside tree f.path)
    (htexts : ∀ f ∈ files, texts' (root.join f.path) = texts f.path) (elapsed : Duration) :
    let report := reportOn texts' elapsed (files.map (moved root))
    report.seenFrom root = reportOn texts elapsed files ∧ report.LiesBelow root := by
  have hexports : ((files.map (moved root)).filter fun f => Exports texts' f)
      = (files.filter fun f => Exports texts f).map (moved root) :=
    filter_moved fun f hf => by rw [Exports, Exports, moved, htexts f hf]
  simp only [reportOn, hexports, List.length_map]
  -- from here on only the exporting files matter
  generalize hexporting : (files.filter fun f => Exports texts f) = exporting
  have hsub : ∀ f ∈ exporting, f ∈ files := fun f hf => by
    rw [← hexporting] at hf
    exact List.mem_of_mem_filter hf
  have hused : ∀ f ∈ exporting, (IsUsed texts' (exporting.map (moved root)) (moved root f) ↔
      IsUsed texts exporting f) := fun f hf =>
    isUsed_moved hroot (fun f hf => hinside f (hsub f hf)) (fun f hf => htexts f (hsub f hf)) hf
  rw [filter_moved hused, filter_moved fun f hf => not_congr (hused f hf)]
  exact ofClassification_moved hroot
    (fun f hf => hinside f (hsub f (List.mem_of_mem_filter hf)))
    (fun f hf => hinside f (hsub f (List.mem_of_mem_filter hf))) _ _ _

end Moved

/-! ## Scans

A report is a function of the files and their texts, as files are found. So it is enough to
move the files, and the journal, the batches and the workers need no thought. -/

section Scans

variable {tree : Entries} {s : Settings} {d : Disk} {root : Path}

/-- **A scan, seen from its root, is a scan of the tree by itself.** -/
theorem run_seenFrom (hwf : tree.WellFormed) (hplain : tree.Plain)
    (hrespect : s.respectIgnoreFiles = false) (hne : s.targets ≠ [])
    (htargets : ∀ target ∈ s.targets, IsTarget tree target)
    (hlies : LiesAt tree s.targets d root) (crew : Crew) (elapsed : Duration) (j : Journal) :
    let outcome := (crew.run (.ofDisk d) s.effectiveBatchSize elapsed
      (Discovery.find d s root) j).1
    outcome.map (Report.seenFrom root) = (match s.excludes with
        | .ok excludes => .ok (reportOn (textWithin tree) elapsed (filesWithin tree s excludes))
        | .error e => .error (.invalidExclude e)) ∧
      ∀ report, outcome = .ok report → report.LiesBelow root := by
  have hdirectory : d.hasDirectory root = true := by rw [Disk.hasDirectory, hlies.there]
  cases hexcludes : s.excludes with
  | error e =>
    -- discovery fails before it looks below the root
    have hfind : Discovery.find d s root = ⟨[], .error (.invalidExclude e)⟩ :=
      Discovery.findIn_of_excludes_error hdirectory hexcludes
    rw [hfind]
    exact ⟨rfl, fun report h => by cases h⟩
  | ok excludes =>
    have hfiles := Discovery.find_files hdirectory hexcludes
    rw [Discovery.files_join hwf hplain hrespect hne htargets hlies] at hfiles
    generalize Discovery.find d s root = found at hfiles
    obtain ⟨log, found⟩ := found
    obtain rfl := hfiles
    rw [ofDisk_eq_fixed, run_fixed]
    -- below the root lie the files of the tree, with their texts
    have hinside := fun f (hf : f ∈ filesWithin tree s excludes) =>
      Discovery.inside_of_mem_filesWithin hwf htargets hf
    have htexts : ∀ f ∈ filesWithin tree s excludes,
        textsOf d (root.join f.path) = textWithin tree f.path := fun f hf =>
      (hinside f hf).readLossy_join hwf hplain hlies
        (hlies.fits_of_mem_filesWithin hwf htargets hf)
    obtain ⟨hseen, hbelow⟩ := reportOn_moved hlies.bytes_ne_nil hinside htexts elapsed
    exact ⟨congrArg Except.ok hseen, fun report h => Except.ok.inj h ▸ hbelow⟩

/-- **Relocation.** A tree of directories and files lies at two roots, on one disk or on two, and
the roots are spelled in any way. Ignore files do not count, and the targets are made of names and
do not lead to files. If no path is too long at either root, the two scans succeed or fail alike,
and as seen from the roots they report the same; all paths in the reports lie below the roots. -/
theorem relocated_scans_agree {d₁ d₂ : Disk} {root₁ root₂ : Path} (hwf : tree.WellFormed)
    (hplain : tree.Plain) (hrespect : s.respectIgnoreFiles = false) (hne : s.targets ≠ [])
    (htargets : ∀ target ∈ s.targets, IsTarget tree target)
    (hlies₁ : LiesAt tree s.targets d₁ root₁) (hlies₂ : LiesAt tree s.targets d₂ root₂)
    (crew₁ crew₂ : Crew) (elapsed₁ elapsed₂ : Duration) (j₁ j₂ : Journal) :
    let outcome₁ := (crew₁.run (.ofDisk d₁) s.effectiveBatchSize elapsed₁
      (Discovery.find d₁ s root₁) j₁).1
    let outcome₂ := (crew₂.run (.ofDisk d₂) s.effectiveBatchSize elapsed₂
      (Discovery.find d₂ s root₂) j₂).1
    outcome₁.map (fun report => { report.seenFrom root₁ with elapsed := elapsed₂ })
        = outcome₂.map (Report.seenFrom root₂) ∧
      (∀ report, outcome₁ = .ok report → report.LiesBelow root₁) ∧
      ∀ report, outcome₂ = .ok report → report.LiesBelow root₂ := by
  obtain ⟨hseen₁, hbelow₁⟩ :=
    run_seenFrom hwf hplain hrespect hne htargets hlies₁ crew₁ elapsed₁ j₁
  obtain ⟨hseen₂, hbelow₂⟩ :=
    run_seenFrom hwf hplain hrespect hne htargets hlies₂ crew₂ elapsed₂ j₂
  intro outcome₁ outcome₂
  refine ⟨?_, hbelow₁, hbelow₂⟩
  -- the time is the one thing in which the reports differ
  have htime : outcome₁.map (fun report => { report.seenFrom root₁ with elapsed := elapsed₂ })
      = (outcome₁.map (Report.seenFrom root₁)).map fun report =>
        { report with elapsed := elapsed₂ } := by
    cases outcome₁ <;> rfl
  rw [htime, hseen₁, hseen₂]
  cases s.excludes <;> rfl

/-- A project below a directory that is named like build output, and below a hidden one. -/
theorem relocated_scans_agree_widget :
    let name := Text.Utf8.ofString
    let tree : Entries := .cons (name "src") (.directory
      (.cons (name "Widget.ts") (.file (name "export default 1"))
        (.cons (name "App.ts") (.file (name "import W from './Widget'; export *")) .nil))) .nil
    let d₁ : Disk := ⟨(Node.directory .nil).put [name "dist"] (.directory tree), []⟩
    let d₂ : Disk :=
      ⟨(Node.directory .nil).put [name ".x", name "y"] (.directory tree), [name ".x"]⟩
    let root₁ := Path.ofString "/dist//"
    let root₂ := Path.ofString ".//y/."
    let s := Settings.default
    let outcome₁ := (project d₁ s root₁ ⟨0, 0⟩ .empty).1
    let outcome₂ := (project d₂ s root₂ ⟨1, 0⟩ .empty).1
    tree.WellFormed ∧ tree.Plain ∧ s.respectIgnoreFiles = false ∧ s.targets ≠ [] ∧
    (∀ target ∈ s.targets, IsTarget tree target) ∧
    LiesAt tree s.targets d₁ root₁ ∧ LiesAt tree s.targets d₂ root₂ ∧
    outcome₁.map (fun report => { report.seenFrom root₁ with elapsed := ⟨1, 0⟩ })
      = outcome₂.map (Report.seenFrom root₂) := by
  intro name tree d₁ d₂ root₁ root₂ s outcome₁ outcome₂
  have hwf : tree.WellFormed := (by decide +kernel : (Node.directory tree).WellFormed)
  have hplain : tree.Plain := (by decide +kernel : (Node.directory tree).Plain)
  have htargets : ∀ target ∈ s.targets, IsTarget tree target := by
    intro target hmem
    obtain rfl := List.mem_singleton.1 hmem
    exact Discovery.isTarget_of_directory ⟨by decide +kernel, by decide +kernel⟩
      (by decide +kernel)
  have hresolve₁ : d₁.resolve root₁ = .ok (.taken [name "dist"]) := by decide +kernel
  have hresolve₂ : d₂.resolve root₂ = .ok (.taken [name ".x", name "y"]) := by decide +kernel
  have hlies₁ : LiesAt tree s.targets d₁ root₁ :=
    Discovery.liesAt_of_allNames (Disk.node_of_resolve hresolve₁ rfl) (by decide +kernel)
  have hlies₂ : LiesAt tree s.targets d₂ root₂ :=
    Discovery.liesAt_of_allNames (Disk.node_of_resolve hresolve₂ rfl) (by decide +kernel)
  have hrespect : s.respectIgnoreFiles = false := rfl
  have hne : s.targets ≠ [] := List.cons_ne_nil _ _
  -- the trees have been evaluated where needed, and are not unfolded any more
  clear_value s d₁ d₂ root₁ root₂ tree
  exact ⟨hwf, hplain, hrespect, hne, htargets, hlies₁, hlies₂,
    (relocated_scans_agree hwf hplain hrespect hne htargets hlies₁ hlies₂ (Crew.single s.parallel)
      (Crew.single s.parallel) ⟨0, 0⟩ ⟨1, 0⟩ .empty .empty).1⟩

/-- **Far away.** Below a root that is spelled at great length a directory may be out of reach. -/
theorem scans_differ_far_away :
    let name := Text.Utf8.ofString
    let long : Name := List.replicate 100 0x64
    let tree : Entries := .cons (name "src") (.directory (.cons long (.directory
      (.cons (name "Widget.ts") (.file (name "export default 1")) .nil)) .nil)) .nil
    let d : Disk := ⟨.directory tree, []⟩
    let near := Path.ofString "."
    let far : Path := ⟨(List.replicate 2000 [dot, slash]).flatten⟩
    let s := { Settings.default with exclude := [] }
    let scanned root := (project d s root ⟨0, 0⟩ .empty).1.map Report.totalScanned
    tree.WellFormed ∧ tree.Plain ∧ s.respectIgnoreFiles = false ∧ s.targets ≠ [] ∧
    (∀ target ∈ s.targets, IsTarget tree target) ∧
    d.node near = .ok (.directory tree) ∧ d.node far = .ok (.directory tree) ∧
    scanned near = .ok 1 ∧ scanned far = .ok 0 := by
  intro name long tree d near far s scanned
  have hwf : tree.WellFormed := (by decide +kernel : (Node.directory tree).WellFormed)
  have hplain : tree.Plain := (by decide +kernel : (Node.directory tree).Plain)
  have htargets : ∀ target ∈ s.targets, IsTarget tree target := by
    intro target hmem
    obtain rfl := List.mem_singleton.1 hmem
    exact Discovery.isTarget_of_directory ⟨by decide +kernel, by decide +kernel⟩
      (by decide +kernel)
  have hresolveNear : d.resolve near = .ok (.taken []) := by decide +kernel
  have hresolveFar : d.resolve far = .ok (.taken []) := by decide +kernel
  have hnear : d.node near = .ok (.directory tree) := Disk.node_of_resolve hresolveNear rfl
  have hfar : d.node far = .ok (.directory tree) := Disk.node_of_resolve hresolveFar rfl
  -- what is met from either root, evaluated; it decides how many files are scanned
  have hmetNear : (Discovery.starts s near).flatMap (Discovery.pathsFrom d s [] near)
      = [near.extend [name "src", long, name "Widget.ts"]] := by decide +kernel
  have hmetFar : (Discovery.starts s far).flatMap (Discovery.pathsFrom d s [] far) = [] := by
    decide +kernel
  have hrespect : s.respectIgnoreFiles = false := rfl
  have hne : s.targets ≠ [] := List.cons_ne_nil _ _
  have hexcludes : s.excludes = .ok [] := rfl
  have hscanned : ∀ root paths, d.node root = .ok (.directory tree) →
      (Discovery.starts s root).flatMap (Discovery.pathsFrom d s [] root) = paths →
      paths.Pairwise Path.Before → scanned root = .ok paths.length := by
    intro root paths hnode hmet hbefore
    have hroot : d.hasDirectory root = true := by rw [Disk.hasDirectory, hnode]
    have hfiles := Discovery.find_files_of_before hroot hexcludes hmet hbefore
    simp only [scanned]
    rw [project_outcome, hfiles]
    simp [reportOn, Report.ofClassification, Except.map]
  exact ⟨hwf, hplain, hrespect, hne, htargets, hnear, hfar,
    hscanned near _ hnear hmetNear (List.pairwise_singleton _ _), hscanned far _ hfar hmetFar .nil⟩

end Scans

end Scan

end Unimported
