/-
Candidates by their paths.

Of the files that the walks meet those are candidates that no exclude pattern matches and that have
a wanted extension. What is found is the arranged list of them, start after start.
-/
import Unimported.Proofs.Discovery.Arrange
import Unimported.Proofs.Discovery.Walk

set_option autoImplicit false

namespace Unimported.Discovery

open Source (File)

variable {d : Disk} {s : Settings} {excludes : Settings.Excludes} {root start p : Path}

/-- Whether a file at the path would be a candidate. -/
def admits (s : Settings) (excludes : Settings.Excludes) (root p : Path) : Bool :=
  !excludes.matchPath (p.relativeTo root) && p.extension?.any (wantsExtension s)

theorem file?_ofPath :
    (Candidate.ofPath s excludes root p).file?
      = if admits s excludes root p then some (File.ofPath p) else none := by
  rw [Candidate.ofPath, admits]
  cases excludes.matchPath (p.relativeTo root) with
  | true => rfl
  | false =>
    cases p.extension? with
    | none => rfl
    | some extension => cases h : wantsExtension s extension <;> simp [h, Candidate.file?]

/-- The paths of the candidates that a walk from a start meets. -/
def pathsFrom (d : Disk) (s : Settings) (excludes : Settings.Excludes) (root start : Path) :
    List Path :=
  ((walk d s.respectIgnoreFiles start).filterMap Visit.path?).filter (admits s excludes root)

/-- The candidates from a start are files that the walk meets. -/
theorem mem_pathsFrom_iff_walk :
    p ∈ pathsFrom d s excludes root start ↔
      .file p ∈ walk d s.respectIgnoreFiles start ∧ admits s excludes root p = true := by
  have hpath : ∀ visit : Visit, visit.path? = some p ↔ visit = .file p := by
    intro visit
    cases visit <;> simp [Visit.path?]
  simp only [pathsFrom, List.mem_filter, List.mem_filterMap, hpath, exists_eq_right]

theorem files_candidates :
    (candidates d s excludes root start).filterMap Candidate.file?
      = (pathsFrom d s excludes root start).map File.ofPath := by
  rw [candidates, pathsFrom, List.filterMap_map, ← List.filterMap_eq_map, List.filterMap_filter,
    List.filterMap_filterMap]
  refine List.filterMap_congr fun visit _ => ?_
  cases visit with
  | file p => exact file?_ofPath
  | obstacle reason => rfl

/-- What is found are the candidates from all starts, arranged. -/
theorem files_eq :
    files d s excludes root
      = arrange ((starts s root).flatMap fun start =>
          (pathsFrom d s excludes root start).map File.ofPath) :=
  congrArg arrange (List.flatMap_congr fun _ _ => files_candidates)

/-! ## Success

Discovery fails for the root or for the exclude patterns, before it looks at any other file.
In all other cases it finds what is arranged of the candidates, so this is all that the
other modules need to know of the search. -/

theorem exists_directory (h : d.hasDirectory root = true) :
    ∃ entries, d.node root = .ok (.directory entries) := by
  rw [Disk.hasDirectory] at h
  split at h
  · exact ⟨_, ‹_›⟩
  · cases h

theorem hasAny_of_directory (h : d.hasDirectory root = true) : d.hasAny root = true := by
  obtain ⟨entries, hnode⟩ := exists_directory h
  rw [Disk.hasAny, hnode]

/-- At a directory, with exclude patterns of use, discovery succeeds. -/
theorem findIn_files {room : Glob.Room} (hroot : d.hasDirectory root = true)
    (hexcludes : s.excludesIn room = .ok excludes) :
    (findIn room d s root).files = .ok (files d s excludes root) := by
  rw [findIn, hasAny_of_directory hroot, hroot, hexcludes]
  rfl

theorem find_files (hroot : d.hasDirectory root = true) (hexcludes : s.excludes = .ok excludes) :
    (find d s root).files = .ok (files d s excludes root) := findIn_files hroot hexcludes

/-- At a directory, exclude patterns of no use are why discovery fails. -/
theorem findIn_of_excludes_error {room : Glob.Room} {e : Settings.ExcludeError}
    (hroot : d.hasDirectory root = true) (hexcludes : s.excludesIn room = .error e) :
    findIn room d s root = ⟨[], .error (.invalidExclude e)⟩ := by
  rw [findIn, hasAny_of_directory hroot, hroot, hexcludes]
  rfl

theorem find_files_of_excludes_error {e : Settings.ExcludeError}
    (hroot : d.hasDirectory root = true)
    (hexcludes : s.excludes = .error e) : (find d s root).files = .error (.invalidExclude e) :=
  congrArg Scan.Found.files (findIn_of_excludes_error hroot hexcludes)

/-- Where there is no directory, discovery fails, whatever the settings. -/
theorem find_files_of_not_directory (hroot : d.hasDirectory root = false) :
    ∃ e, ∀ s, (find d s root).files = .error e := by
  cases hany : d.hasAny root with
  | false =>
    refine ⟨.rootNotFound root, fun s => ?_⟩
    rw [find, findIn, hany]
    rfl
  | true =>
    refine ⟨.notADirectory root, fun s => ?_⟩
    rw [find, findIn, hany, hroot]
    rfl

/-- **When discovery succeeds**, and with which files. -/
theorem find_files_eq_ok_iff {found : List File} :
    (find d s root).files = .ok found ↔ d.hasDirectory root = true ∧
      ∃ excludes, s.excludes = .ok excludes ∧ files d s excludes root = found := by
  cases hroot : d.hasDirectory root with
  | false =>
    obtain ⟨e, herror⟩ := find_files_of_not_directory hroot
    simp [herror]
  | true =>
    cases hexcludes : s.excludes with
    | error e => simp [find_files_of_excludes_error hroot hexcludes]
    | ok excludes => simp [find_files hroot hexcludes]

/-- Whether discovery fails, and why, depends on the settings by way of the exclude patterns
alone. -/
theorem find_cases (d : Disk) (s : Settings) (root : Path) :
    (∃ e, ∀ s' : Settings, s'.excludes = s.excludes → (find d s' root).files = .error e) ∨
      ∃ excludes, s.excludes = .ok excludes ∧ ∀ s' : Settings, s'.excludes = s.excludes →
        (find d s' root).files = .ok (files d s' excludes root) := by
  cases hroot : d.hasDirectory root with
  | false =>
    obtain ⟨e, herror⟩ := find_files_of_not_directory hroot
    exact .inl ⟨e, fun s' _ => herror s'⟩
  | true =>
    cases hexcludes : s.excludes with
    | error e => exact .inl ⟨_, fun s' h => find_files_of_excludes_error hroot h⟩
    | ok excludes => exact .inr ⟨excludes, rfl, fun s' h => find_files hroot h⟩

/-- Candidates that are met in strict order are found as they are met. -/
theorem find_files_of_before (hroot : d.hasDirectory root = true)
    (hexcludes : s.excludes = .ok excludes) {paths : List Path}
    (hpaths : (starts s root).flatMap (pathsFrom d s excludes root) = paths)
    (hbefore : paths.Pairwise Path.Before) :
    (find d s root).files = .ok (paths.map File.ofPath) := by
  rw [find_files hroot hexcludes, files_eq, ← List.map_flatMap, hpaths,
    arrange_of_before (List.pairwise_map.2 hbefore)]

/-- Nothing is found from a start where there is nothing. -/
theorem pathsFrom_of_error {trouble : Trouble} (h : d.node start = .error trouble) :
    pathsFrom d s excludes root start = [] := by
  rw [pathsFrom, walk, h]
  split <;> rfl

/-- Without ignore files, the candidates from a start are where names lead to files. -/
theorem mem_pathsFrom (hd : d.WellFormed) (hrespect : s.respectIgnoreFiles = false) :
    p ∈ pathsFrom d s excludes root start ↔
      start.components ≠ standardInput.components ∧
        (∃ node names, d.node start = .ok node ∧ Leads (canOpen start) [] node names ∧
          start.extend names = p) ∧ admits s excludes root p = true := by
  rw [pathsFrom, hrespect, List.mem_filter, ← and_assoc]
  refine and_congr_left fun _ => ?_
  -- nothing is looked for below a start that names the standard input
  by_cases hstart : start.components = standardInput.components
  · rw [walk, if_pos (Path.same_iff.2 hstart)]
    exact iff_of_false (by simp) fun h => h.1 hstart
  · simp only [ne_eq, hstart, not_false_eq_true, true_and]
    cases hnode : d.node start with
    | error trouble =>
      rw [walk, if_neg (fun h => hstart (Path.same_iff.1 h)), hnode]
      exact iff_of_false (by simp) (by simp)
    | ok node =>
      obtain ⟨hwf, hlink⟩ := hd.of_node hnode
      rw [paths_walk hstart hnode hlink, List.mem_map]
      simp only [mem_namesFrom hwf]
      constructor
      · rintro ⟨names, hleads, hp⟩
        exact ⟨node, names, rfl, hleads, hp⟩
      · rintro ⟨_, names, ⟨⟩, hleads, hp⟩
        exact ⟨names, hleads, hp⟩

end Unimported.Discovery
