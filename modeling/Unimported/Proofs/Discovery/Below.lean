/-
What is found below a root depends on what is below it.

A tree of directories and files can lie at any root, and the root can be spelled in any way. If the
targets are made of names, and no path gets too long, what is found are the paths that are found in
the tree by itself, each joined to the root. `files_join` says so, and `Inside.readLossy_join` says
that the texts are the same too.
-/
import Unimported.Proofs.Discovery.Candidates
import Unimported.Proofs.Source.Reference

set_option autoImplicit false

namespace Unimported.Discovery

open Source (File)

/-! ## A tree and its place

`Inside` and `IsTarget` speak of the tree alone, and `LiesAt` is the only assumption about
the disk. It has no word on how the root is spelled, nor on what else is there. -/

/-- A path in a tree: it is made of names and leads to a file below a directory. -/
structure Inside (tree : Entries) (q : Path) : Prop where
  named : Path.Named q q.names
  two : 2 ≤ q.names.length
  trimmed : Path.Trimmed q.segments
  toFile : ∃ bytes, (Node.directory tree).at? q.names = some (.file bytes)

/-- A target for a tree: it is made of names, which do not lead to a file. -/
structure IsTarget (tree : Entries) (target : Path) : Prop where
  named : Path.Named target target.names
  noFile : ∀ bytes, (Node.directory tree).at? target.names ≠ some (.file bytes)

/-- The tree lies at the root, and no path that leads into it by way of a target is too long. -/
structure LiesAt (tree : Entries) (targets : List Path) (d : Disk) (root : Path) : Prop where
  there : d.node root = .ok (.directory tree)
  fits : ∀ target ∈ targets, ∀ names node,
    (Node.directory tree).at? (target.names ++ names) = some node →
      ((root.join target).extend names).bytes.length ≤ Disk.pathLimit

/-- The paths of the candidates that are met from a target on, within the tree. All directories can
be opened, and exclude patterns see the paths as they are. -/
def pathsWithin (tree : Entries) (s : Settings) (excludes : Settings.Excludes) (target : Path) :
    List Path :=
  (match (Node.directory tree).at? target.names with
    | some node => (namesFrom (fun _ => true) [] node).map target.extend
    | none => []).filter (admits s excludes ⟨[]⟩)

/-- A file, moved below a root. -/
def moved (root : Path) (file : File) : File := ⟨root.join file.path, file.kind⟩

section Below

variable {tree : Entries} {targets : List Path} {d : Disk} {s : Settings}
  {excludes : Settings.Excludes} {root target q : Path}

/-! ## Paths in the tree

A path in the tree is made of names, so joining it to a root puts the components of the root
in front and changes nothing else. All that discovery asks of a path, it asks of what is
behind the root or of the last two components. -/

theorem Inside.components_length (h : Inside tree q) : 2 ≤ q.components.length := by
  rw [h.named.components, List.length_map]
  exact h.two

theorem Inside.components_ne_nil (h : Inside tree q) : q.components ≠ [] :=
  List.ne_nil_of_length_pos (Nat.lt_of_lt_of_le Nat.two_pos h.components_length)

theorem Inside.components_join (h : Inside tree q) (hroot : root.bytes ≠ []) :
    (root.join q).components = root.components ++ q.components :=
  Path.components_join hroot h.named.inner

/-- Exclude patterns and extensions do not see the root. -/
theorem Inside.admits_join (h : Inside tree q) (hroot : root.bytes ≠ []) :
    admits s excludes root (root.join q) = admits s excludes ⟨[]⟩ q := by
  rw [admits, admits, Path.relativeTo_join hroot h.named.inner.relative h.trimmed,
    Path.relativeTo_nil,
    Source.extension?_of_append (h.components_join hroot) h.components_ne_nil]

theorem Inside.ofPath_join (h : Inside tree q) (hroot : root.bytes ≠ []) :
    File.ofPath (root.join q) = moved root (File.ofPath q) := by
  rw [File.ofPath, Source.Kind.ofPath?,
    Source.extension?_of_append (h.components_join hroot) h.components_ne_nil]
  rfl

/-- Names on which a walk within the tree meets a file make up a path in the tree. -/
theorem inside_of_mem_namesFrom {node : Node} {names : List Name} (hwf : tree.WellFormed)
    (htarget : IsTarget tree target)
    (hat : (Node.directory tree).at? target.names = some node)
    (h : names ∈ namesFrom (fun _ => true) [] node) :
    Inside tree (target.extend names) ∧ (∀ n ∈ names, Path.IsName n) ∧
      ∃ bytes, (Node.directory tree).at? (target.names ++ names) = some (.file bytes) := by
  have htree : (Node.directory tree).WellFormed := hwf
  have hnode := (htree.of_at? hat).2
  obtain ⟨bytes, hfile⟩ := ((mem_namesFrom hnode).1 h).toFile
  have hfile : (Node.directory tree).at? (target.names ++ names) = some (.file bytes) := by
    rw [Node.at?_append, hat, Option.bind_some, hfile]
  have hnames : ∀ n ∈ names, Path.IsName n := fun n hn =>
    ((htree.of_at? hfile).1 n (List.mem_append_right _ hn)).1
  -- the target itself leads to no file, so there is a name behind it
  have hne : names ≠ [] := by
    rintro rfl
    rw [List.append_nil] at hfile
    exact htarget.noFile bytes hfile
  have hextend := htarget.named.extend hnames
  refine ⟨⟨?_, ?_, htarget.named.trimmed_extend hne hnames, bytes, ?_⟩, hnames, bytes, hfile⟩
  · rwa [hextend.names_eq]
  · rw [hextend.names_eq, List.length_append]
    have := List.length_pos_of_ne_nil htarget.named.ne_nil
    have := List.length_pos_of_ne_nil hne
    omega
  · rw [hextend.names_eq, hfile]

/-- What is met within the tree are names behind a target. -/
theorem exists_of_mem_pathsWithin (h : q ∈ pathsWithin tree s excludes target) :
    ∃ node names, (Node.directory tree).at? target.names = some node ∧
      names ∈ namesFrom (fun _ => true) [] node ∧ target.extend names = q := by
  rw [pathsWithin, List.mem_filter] at h
  cases hat : (Node.directory tree).at? target.names with
  | none => simp [hat] at h
  | some node =>
    simp only [hat, List.mem_map] at h
    obtain ⟨⟨names, hnames, rfl⟩, -⟩ := h
    exact ⟨node, names, rfl, hnames, rfl⟩

/-- The candidates that are found within the tree by itself. -/
def filesWithin (tree : Entries) (s : Settings) (excludes : Settings.Excludes) : List File :=
  arrange ((s.targets.flatMap (pathsWithin tree s excludes)).map File.ofPath)

/-- What is found within the tree are names behind a target. -/
theorem exists_of_mem_filesWithin {file : File} (h : file ∈ filesWithin tree s excludes) :
    ∃ target ∈ s.targets, ∃ node names, (Node.directory tree).at? target.names = some node ∧
      names ∈ namesFrom (fun _ => true) [] node ∧ target.extend names = file.path := by
  obtain ⟨q, hq, rfl⟩ := List.mem_map.1 (arrange_subset _ h)
  obtain ⟨target, hmem, hq⟩ := List.mem_flatMap.1 hq
  exact ⟨target, hmem, exists_of_mem_pathsWithin hq⟩

theorem inside_of_mem_filesWithin (hwf : tree.WellFormed)
    (htargets : ∀ target ∈ s.targets, IsTarget tree target) {file : File}
    (h : file ∈ filesWithin tree s excludes) : Inside tree file.path := by
  obtain ⟨target, hmem, node, names, hat, hnames, hpath⟩ := exists_of_mem_filesWithin h
  exact hpath ▸ (inside_of_mem_namesFrom hwf (htargets target hmem) hat hnames).1

/-! ## Where the tree lies

A walk from a target below the root meets the names that it meets in the tree. Directories
too far away could not be opened; that all paths fit rules them out. -/

/-- Names that lead to a directory, or to nothing, make up a target. -/
theorem isTarget_of_directory (hnamed : Path.Named target target.names)
    (hdirectory : ((Node.directory tree).at? target.names).all isDirectory = true) :
    IsTarget tree target := by
  refine ⟨hnamed, fun bytes hat => ?_⟩
  rw [hat] at hdirectory
  cases hdirectory

/-- Whether a tree fits at a root is tested target by target. -/
theorem liesAt_of_allNames (hthere : d.node root = .ok (.directory tree))
    (hfits : ∀ target ∈ targets, ((Node.directory tree).at? target.names).all fun node =>
      node.allNames (fun names =>
        decide (((root.join target).extend names).bytes.length ≤ Disk.pathLimit)) []) :
    LiesAt tree targets d root := by
  refine ⟨hthere, fun target hmem names node hat => ?_⟩
  rw [Node.at?_append, Option.bind_eq_some_iff] at hat
  obtain ⟨sub, hsub, hat⟩ := hat
  have hall := hfits target hmem
  rw [hsub, Option.all_some] at hall
  exact of_decide_eq_true (Node.test_of_allNames hall hat)

theorem LiesAt.bytes_ne_nil (h : LiesAt tree targets d root) : root.bytes ≠ [] := by
  obtain ⟨names, hresolve, -⟩ := Disk.resolve_of_node h.there
  exact (Disk.admissible_of_resolve hresolve).2.1

/-- A path that is made of two has too many components for the name of the standard input. -/
theorem components_join_ne_standardInput (hroot : root.bytes ≠ [])
    (hnamed : Path.Named target target.names) :
    (root.join target).components ≠ standardInput.components := by
  have hfirst := List.length_pos_of_ne_nil (Path.components_ne_nil hroot)
  have hsecond := List.length_pos_of_ne_nil (Path.components_ne_nil hnamed.bytes_ne_nil)
  have hone : standardInput.components.length = 1 := by decide
  intro heq
  have hlength := congrArg List.length heq
  rw [Path.components_join hroot hnamed.inner, List.length_append] at hlength
  omega

/-- Since all paths fit, each directory below a target can be opened. -/
theorem LiesAt.namesFrom_canOpen (hlies : LiesAt tree targets d root) (hwf : tree.WellFormed)
    (hmem : target ∈ targets) {entries : Entries}
    (hat : (Node.directory tree).at? target.names = some (.directory entries)) :
    namesFrom (canOpen (root.join target)) [] (.directory entries)
      = namesFrom (fun _ => true) [] (.directory entries) := by
  have htree : (Node.directory tree).WellFormed := hwf
  refine namesFrom_congr (htree.of_at? hat).2 fun names sub hdirectory => ?_
  have hwithin : (Node.directory tree).at? (target.names ++ names) = some (.directory sub) := by
    rw [Node.at?_append, hat, Option.bind_some, hdirectory]
  rw [List.nil_append, canOpen, decide_eq_true_eq]
  exact hlies.fits target hmem names _ hwithin

/-- **What is met below the root** is what is met within the tree, joined to the root. -/
theorem pathsFrom_join (hwf : tree.WellFormed) (hplain : tree.Plain)
    (hrespect : s.respectIgnoreFiles = false) (hlies : LiesAt tree targets d root)
    (hmem : target ∈ targets) (htarget : IsTarget tree target) :
    pathsFrom d s excludes root (root.join target)
      = (pathsWithin tree s excludes target).map root.join := by
  have hroot := hlies.bytes_ne_nil
  have hnamed := htarget.named
  obtain ⟨hsome, hnone⟩ := Disk.node_join hlies.there hwf hplain hnamed.inner.relative
    hnamed.filterMap_segments
  -- what the target leads to in the tree, which the root does not change
  cases hat : (Node.directory tree).at? target.names with
  | none =>
    -- where the names lead nowhere, there is nothing below the root either
    cases hnode : d.node (root.join target) with
    | ok node => exact absurd hnode (hnone hat node)
    | error trouble =>
      rw [pathsFrom_of_error hnode, pathsWithin, hat]
      rfl
  | some node =>
    have htree : (Node.directory tree).Plain := hplain
    have hplain' := htree.of_at? hat
    cases node with
    | file bytes => exact absurd hat (htarget.noFile bytes)
    | link path => exact absurd rfl (hplain'.ne_link path)
    | directory entries =>
      have hnode : d.node (root.join target) = .ok (.directory entries) :=
        hsome _ hat (.inl ⟨entries, rfl⟩)
          (hlies.fits target hmem [] _ (by rw [List.append_nil, hat]))
      have hstart := components_join_ne_standardInput hroot hnamed
      have hnames : ∀ names ∈ namesFrom (fun _ => true) [] (.directory entries),
          (root.join target).extend names = root.join (target.extend names) ∧
            Inside tree (target.extend names) := fun names hnames => by
        obtain ⟨hinside, hnames, -⟩ := inside_of_mem_namesFrom hwf htarget hat hnames
        exact ⟨Path.join_extend hnamed.bytes_ne_nil hnamed.inner.relative hnames, hinside⟩
      rw [pathsFrom, hrespect, paths_walk hstart hnode hplain'.ne_link,
        hlies.namesFrom_canOpen hwf hmem hat, pathsWithin, hat]
      simp only [List.filter_map, List.map_map]
      -- exclude patterns see what is behind the root, which is what they see within the tree
      have hadmits : (namesFrom (fun _ => true) [] (.directory entries)).filter
            (admits s excludes root ∘ (root.join target).extend)
          = (namesFrom (fun _ => true) [] (.directory entries)).filter
            (admits s excludes ⟨[]⟩ ∘ target.extend) :=
        List.filter_congr fun names hmem => by
          obtain ⟨hjoin, hinside⟩ := hnames names hmem
          rw [Function.comp_apply, Function.comp_apply, hjoin, hinside.admits_join hroot]
      rw [hadmits]
      exact List.map_congr_left fun names hmem => (hnames names (List.mem_of_mem_filter hmem)).1

/-- What is found within the tree can be read where the tree lies. -/
theorem LiesAt.fits_of_mem_filesWithin (hlies : LiesAt tree s.targets d root)
    (hwf : tree.WellFormed) (htargets : ∀ target ∈ s.targets, IsTarget tree target) {file : File}
    (h : file ∈ filesWithin tree s excludes) :
    (root.join file.path).bytes.length ≤ Disk.pathLimit := by
  obtain ⟨target, hmem, node, names, hat, hnames, hpath⟩ := exists_of_mem_filesWithin h
  have htarget := htargets target hmem
  obtain ⟨-, hnames, bytes, hfile⟩ := inside_of_mem_namesFrom hwf htarget hat hnames
  rw [← hpath, ← Path.join_extend htarget.named.bytes_ne_nil htarget.named.inner.relative hnames]
  exact hlies.fits target hmem names _ hfile

/-- **What is found below a root** is what is found within the tree by itself, joined to the
root. -/
theorem files_join (hwf : tree.WellFormed) (hplain : tree.Plain)
    (hrespect : s.respectIgnoreFiles = false) (hne : s.targets ≠ [])
    (htargets : ∀ target ∈ s.targets, IsTarget tree target)
    (hlies : LiesAt tree s.targets d root) :
    files d s excludes root = (filesWithin tree s excludes).map (moved root) := by
  have hroot := hlies.bytes_ne_nil
  have hstarts : starts s root = s.targets.map root.join :=
    if_neg (by simpa using hne)
  have hinside : ∀ q ∈ s.targets.flatMap (pathsWithin tree s excludes), Inside tree q := by
    intro q hq
    obtain ⟨target, hmem, hq⟩ := List.mem_flatMap.1 hq
    obtain ⟨node, names, hat, hnames, rfl⟩ := exists_of_mem_pathsWithin hq
    exact (inside_of_mem_namesFrom hwf (htargets target hmem) hat hnames).1
  have hmet : (starts s root).flatMap (pathsFrom d s excludes root)
      = (s.targets.flatMap (pathsWithin tree s excludes)).map root.join := by
    rw [hstarts, List.flatMap_map, List.map_flatMap]
    exact List.flatMap_congr fun target hmem =>
      pathsFrom_join hwf hplain hrespect hlies hmem (htargets target hmem)
  have hfiles : ((starts s root).flatMap (pathsFrom d s excludes root)).map File.ofPath
      = ((s.targets.flatMap (pathsWithin tree s excludes)).map File.ofPath).map (moved root) := by
    rw [hmet, List.map_map, List.map_map]
    exact List.map_congr_left fun q hq => (hinside q hq).ofPath_join hroot
  -- all paths have the components of the root in front
  have hcomponents : ∀ f ∈ (s.targets.flatMap (pathsWithin tree s excludes)).map File.ofPath,
      (moved root f).path.components = root.components ++ f.path.components := by
    intro f hf
    obtain ⟨q, hq, rfl⟩ := List.mem_map.1 hf
    exact (hinside q hq).components_join hroot
  rw [files_eq, ← List.map_flatMap, hfiles, filesWithin]
  refine arrange_map (fun f hf f' hf' => ?_) fun f hf f' hf' => ?_
  · exact Path.le_of_append (hcomponents f hf) (hcomponents f' hf')
  · simp only [Path.same, hcomponents f hf, hcomponents f' hf', List.append_cancel_left_eq]

/-! ## Texts

Reading asks for the node at a path and for nothing else, so a file has one text in all
places. -/

/-- The text of the file in the tree at a path, if there is one. -/
def textWithin (tree : Entries) (q : Path) : Except String String :=
  match (Node.directory tree).at? q.names with
  | some (.file bytes) => .ok (Text.Utf8.toStringLossy bytes)
  | _ => .error Trouble.notFound.message

/-- Where the tree lies, its files have the same texts. -/
theorem Inside.readLossy_join (h : Inside tree q) (hwf : tree.WellFormed) (hplain : tree.Plain)
    (hlies : LiesAt tree targets d root) (hfits : (root.join q).bytes.length ≤ Disk.pathLimit) :
    (d.readLossy (root.join q)).mapError Trouble.message = textWithin tree q := by
  obtain ⟨bytes, hat⟩ := h.toFile
  obtain ⟨hsome, -⟩ := Disk.node_join hlies.there hwf hplain h.named.inner.relative
    h.named.filterMap_segments
  have hnode := hsome _ hat (.inr h.trimmed.last) hfits
  rw [textWithin, hat, Disk.readLossy, Disk.readBytes, hnode]
  rfl

end Below

end Unimported.Discovery
