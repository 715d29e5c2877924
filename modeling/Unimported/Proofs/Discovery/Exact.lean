/-
Discovery is exact.

What is found are the files to which names lead from the starts, by way of directories that can be
opened, that no exclude pattern matches and whose extension is wanted. Each file is found once, in
order, and as it is spelled from the first start that leads to it. `find_exact` is the main result.
-/
import Unimported.Proofs.Discovery.Candidates

set_option autoImplicit false

namespace Unimported.Discovery

open Source (File)

variable {d : Disk} {s : Settings} {excludes : Settings.Excludes} {root start p : Path}
  {names : List Name}

/-! ## What qualifies

The conditions are on names behind a start. They are stated without walks, filters or
settings that have been read, so that they can be checked against a listing of a directory
by hand. -/

/-- The names lead from the start to a file that is to be found. -/
structure Qualifies (d : Disk) (s : Settings) (excludes : Settings.Excludes) (root start : Path)
    (names : List Name) : Prop where
  /-- The start does not stand for the standard input. -/
  walked : start.components ≠ standardInput.components
  /-- The names lead to a file, by way of directories alone. -/
  toFile : ∃ node bytes, d.node start = .ok node ∧ node.at? names = some (.file bytes)
  /-- No name starts with a dot. -/
  visible : ∀ n ∈ names, n.head? ≠ some dot
  /-- The directories on the way can be opened. -/
  opened : ∀ k < names.length, (start.extend (names.take k)).bytes.length ≤ Disk.pathLimit
  /-- No exclude pattern matches the path as seen from the root. -/
  included : ∀ pattern ∈ excludes,
    Glob.matchesPath Settings.excludeWildcards pattern ((start.extend names).relativeTo root)
      = false
  /-- The extension is text, and one of those that are looked for. -/
  wanted : ∃ extension, (start.extend names).extension? = some extension ∧
    Text.Utf8.isValid extension = true ∧
    ∃ e ∈ s.extensions, Settings.plainExtension e = extension.map Source.lowerByte

theorem isHidden_eq_false {n : Name} : isHidden n = false ↔ n.head? ≠ some dot :=
  decide_eq_false_iff_not

theorem admits_iff :
    admits s excludes root p = true ↔
      (∀ pattern ∈ excludes,
        Glob.matchesPath Settings.excludeWildcards pattern (p.relativeTo root) = false) ∧
      ∃ extension, p.extension? = some extension ∧ Text.Utf8.isValid extension = true ∧
        ∃ e ∈ s.extensions, Settings.plainExtension e = extension.map Source.lowerByte := by
  simp [admits, Settings.Excludes.matchPath, Option.any_eq_true, wantsExtension,
    Settings.acceptsExtension]

/-- The candidates from a start are those to which names that qualify lead. -/
theorem mem_pathsFrom_iff (hd : d.WellFormed) (hrespect : s.respectIgnoreFiles = false) :
    p ∈ pathsFrom d s excludes root start ↔
      ∃ names, Qualifies d s excludes root start names ∧ start.extend names = p := by
  rw [mem_pathsFrom hd hrespect, admits_iff]
  constructor
  · rintro ⟨hwalked, ⟨node, names, hnode, ⟨⟨bytes, hat⟩, hvisible, hopened⟩, rfl⟩, hincluded,
      hwanted⟩
    exact ⟨names, ⟨hwalked, ⟨node, bytes, hnode, hat⟩,
      fun n hn => isHidden_eq_false.1 (hvisible n hn),
      fun k hk => of_decide_eq_true (hopened k hk), hincluded, hwanted⟩, rfl⟩
  · rintro ⟨names, ⟨hwalked, ⟨node, bytes, hnode, hat⟩, hvisible, hopened, hincluded, hwanted⟩, rfl⟩
    exact ⟨hwalked, ⟨node, names, hnode, ⟨⟨bytes, hat⟩,
      fun n hn => isHidden_eq_false.2 (hvisible n hn),
      fun k hk => decide_eq_true (hopened k hk)⟩, rfl⟩, hincluded, hwanted⟩

/-! ## What is found

A file can be met from several starts, and repeatedly. Arranging keeps the first spelling,
and the first spelling in the list of all that is met comes from the first start that leads
there. -/

/-- A file that is found is spelled as from the first start from which it can be reached. -/
theorem exists_first_start {file : File} (h : file ∈ files d s excludes root) :
    ∃ before start after, starts s root = before ++ start :: after ∧
      (∃ p ∈ pathsFrom d s excludes root start, file = File.ofPath p) ∧
      ∀ earlier ∈ before, ∀ p ∈ pathsFrom d s excludes root earlier,
        p.components ≠ file.path.components := by
  rw [files_eq] at h
  have hfirst := find?_of_mem_arrange h
  rw [List.find?_flatMap, List.findSome?_eq_some_iff] at hfirst
  obtain ⟨before, start, after, hstarts, hfile, hbefore⟩ := hfirst
  -- the first spelling that was met comes from the first start from which any was met
  obtain ⟨p, hp, rfl⟩ := List.mem_map.1 (List.mem_of_find?_eq_some hfile)
  refine ⟨before, start, after, hstarts, ⟨p, hp, rfl⟩, fun earlier hearlier q hq hsame => ?_⟩
  have hnone := List.find?_eq_none.1 (hbefore earlier hearlier) (File.ofPath q)
    (List.mem_map_of_mem hq)
  exact hnone (Path.same_iff.2 hsame)

/-- **Discovery is exact.** At a directory, without ignore files and with exclude patterns of use,
discovery succeeds. What it finds stands in strict order, it finds a path in some spelling if and
only if names that qualify lead to it from a start, and each file is spelled as from the first
start from which it qualifies. -/
theorem find_exact (hd : d.WellFormed) (hroot : d.hasDirectory root = true)
    (hrespect : s.respectIgnoreFiles = false) (hexcludes : s.excludes = .ok excludes) :
    ∃ found, (find d s root).files = .ok found ∧
      found.Pairwise (fun f g => f.path.Before g.path) ∧
      (∀ p : Path, (∃ f ∈ found, f.path.components = p.components) ↔
        ∃ start ∈ starts s root, ∃ names, Qualifies d s excludes root start names ∧
          (start.extend names).components = p.components) ∧
      ∀ f ∈ found, ∃ before start after, starts s root = before ++ start :: after ∧
        (∃ names, Qualifies d s excludes root start names ∧
          f = File.ofPath (start.extend names)) ∧
        ∀ earlier ∈ before, ∀ names, Qualifies d s excludes root earlier names →
          (earlier.extend names).components ≠ f.path.components := by
  refine ⟨files d s excludes root, find_files hroot hexcludes, arrange_before _, fun p => ?_,
    fun f hf => ?_⟩
  · constructor
    · -- what is found was met from a start, and what is met from a start qualifies
      rintro ⟨f, hf, hp⟩
      obtain ⟨before, start, after, hstarts, ⟨q, hq, rfl⟩, -⟩ := exists_first_start hf
      obtain ⟨names, hqualifies, rfl⟩ := (mem_pathsFrom_iff hd hrespect).1 hq
      exact ⟨start, hstarts ▸ by simp, names, hqualifies, hp⟩
    · -- what qualifies is met, and what is met is kept in some spelling
      rintro ⟨start, hstart, names, hqualifies, hp⟩
      have hmem : File.ofPath (start.extend names) ∈ (starts s root).flatMap fun start =>
          (pathsFrom d s excludes root start).map File.ofPath :=
        List.mem_flatMap.2 ⟨start, hstart,
          List.mem_map_of_mem ((mem_pathsFrom_iff hd hrespect).2 ⟨names, hqualifies, rfl⟩)⟩
      obtain ⟨f, hf, hsame⟩ := exists_arrange hmem
      exact ⟨f, files_eq ▸ hf, hsame.trans hp⟩
  · obtain ⟨before, start, after, hstarts, ⟨q, hq, rfl⟩, hbefore⟩ := exists_first_start hf
    obtain ⟨names, hqualifies, rfl⟩ := (mem_pathsFrom_iff hd hrespect).1 hq
    exact ⟨before, start, after, hstarts, ⟨names, hqualifies, rfl⟩,
      fun earlier hearlier names' hqualifies' => hbefore earlier hearlier _
        ((mem_pathsFrom_iff hd hrespect).2 ⟨names', hqualifies', rfl⟩)⟩

/-- A file under two targets is found in one spelling, beside a hidden one and a link to it. -/
theorem find_exact_overlap :
    let name := Text.Utf8.ofString
    let tree := (((Node.directory .nil).put [name "src", name "lib", name "b.ts"] (.file [])).put
      [name "src", name ".git", name "c.ts"] (.file [])).put [name "src", name "d.ts"]
      (.link (Path.ofString "lib/b.ts"))
    let d : Disk := ⟨tree, []⟩
    let s := { Settings.default with
      targets := [Path.ofString "src//lib", Path.ofString "src", Path.ofString "gone"] }
    let root := Path.ofString "."
    d.WellFormed ∧ d.hasDirectory root = true ∧ s.respectIgnoreFiles = false ∧
    ∃ excludes, s.excludes = .ok excludes ∧ ∃ found, (find d s root).files = .ok found ∧
      found.Pairwise (fun f g => f.path.Before g.path) ∧
      ∃ f ∈ found, f.path.components = (Path.ofString "./src/lib/b.ts").components := by
  intro name tree d s root
  have hd : d.WellFormed := ⟨by decide +kernel, _, rfl⟩
  have hroot : d.hasDirectory root = true := by decide +kernel
  have hmem : (s.excludes.toOption.any fun excludes =>
      decide (Path.ofString "./src/lib/b.ts"
        ∈ pathsFrom d s excludes root (Path.ofString "./src"))) = true := by decide +kernel
  have hstart : Path.ofString "./src" ∈ starts s root := by decide +kernel
  have hrespect : s.respectIgnoreFiles = false := rfl
  -- the disk has been evaluated where needed, and is not unfolded any more
  clear_value d s root
  obtain ⟨excludes, hoption, hmem⟩ := (Option.any_eq_true _ _).1 hmem
  have hexcludes : s.excludes = .ok excludes := by
    cases h : s.excludes with
    | ok excludes' =>
      rw [h] at hoption
      exact congrArg Except.ok (Option.some.inj hoption)
    | error e =>
      rw [h] at hoption
      cases hoption
  have hmem := of_decide_eq_true hmem
  obtain ⟨found, hfound, hbefore, hiff, -⟩ := find_exact hd hroot hrespect hexcludes
  obtain ⟨names, hqualifies, hnames⟩ := (mem_pathsFrom_iff hd hrespect).1 hmem
  exact ⟨hd, hroot, hrespect, excludes, hexcludes, found, hfound, hbefore,
    (hiff _).2 ⟨_, hstart, names, hqualifies, congrArg Path.components hnames⟩⟩

/-! ## What is not as one might expect

The conditions `walked` and `opened` are there for a reason: each of them can keep back a
file that looks like any other. -/

/-- **Two exceptions.** A root that is spelled like the standard input is not walked, and below a
root that is spelled at great length a directory may be out of reach. -/
theorem find_exceptions :
    let name := Text.Utf8.ofString
    let disk names : Disk := ⟨(Node.directory .nil).put names (.file []), []⟩
    let s := { Settings.default with targets := [], exclude := [] }
    let dashed := disk [name "-", name "x.ts"]
    let deep := disk [List.replicate 100 0x64, name "x.ts"]
    let here := Path.ofString "."
    let farAway : Path := ⟨(List.replicate 2000 [dot, slash]).flatten⟩
    (∀ d ∈ [dashed, deep], d.root.WellFormed ∧ d.root.Plain) ∧
    s.respectIgnoreFiles = false ∧ s.excludes = .ok [] ∧
    (dashed.hasDirectory (Path.ofString "-") = true ∧
      (find dashed s (Path.ofString "-")).files = .ok [] ∧
      (find dashed s (Path.ofString "./-")).files
        = .ok [File.ofPath (Path.ofString "./-/x.ts")]) ∧
    deep.hasDirectory farAway = true ∧ (find deep s farAway).files = .ok [] ∧
      (find deep s here).files
        = .ok [File.ofPath (here.extend [List.replicate 100 0x64, name "x.ts"])] := by
  intro name disk s dashed deep here farAway
  have htrees : ∀ d ∈ [dashed, deep], d.root.WellFormed ∧ d.root.Plain := by decide +kernel
  have hdash : dashed.hasDirectory (Path.ofString "-") = true := by decide +kernel
  have hdash' : dashed.hasDirectory (Path.ofString "./-") = true := by decide +kernel
  have hdeep : deep.hasDirectory farAway = true := by decide +kernel
  have hhere : deep.hasDirectory here = true := by decide +kernel
  -- what is met on each disk, evaluated; the lists are in order already
  have hdashed : (starts s (Path.ofString "-")).flatMap
      (pathsFrom dashed s [] (Path.ofString "-")) = [] := by decide +kernel
  have hdashed' : (starts s (Path.ofString "./-")).flatMap
      (pathsFrom dashed s [] (Path.ofString "./-")) = [Path.ofString "./-/x.ts"] := by
    decide +kernel
  have hfar : (starts s farAway).flatMap (pathsFrom deep s [] farAway) = [] := by decide +kernel
  have hnear : (starts s here).flatMap (pathsFrom deep s [] here)
      = [here.extend [List.replicate 100 0x64, name "x.ts"]] := by decide +kernel
  have hrespect : s.respectIgnoreFiles = false := rfl
  have hexcludes : s.excludes = .ok [] := rfl
  clear_value s dashed deep here farAway name
  exact ⟨htrees, hrespect, hexcludes,
    ⟨hdash, find_files_of_before hdash hexcludes hdashed .nil,
      find_files_of_before hdash' hexcludes hdashed' (List.pairwise_singleton _ _)⟩,
    hdeep, find_files_of_before hdeep hexcludes hfar .nil,
    find_files_of_before hhere hexcludes hnear (List.pairwise_singleton _ _)⟩

end Unimported.Discovery
