/-
The spelling of targets does not matter, where nothing sees it.

Two spellings of a directory with the same components lead to the same files, each met under a path
that differs in the spelling of the start alone. Sorting and dropping repeats look at components,
so the files that are found are the same ones, in the same order. The spelling is seen in three
places: exclude patterns are matched against the path that is left of the target's spelling, ignore
rules against what is left of a start that is not steady, and a path that is too long cannot be
opened. `respelled_targets_agree` says that nothing else sees it, and `target_spelling_seen` that
each of these does.
-/
import Unimported.Proofs.Discovery.Candidates
import Unimported.Proofs.Discovery.Directories
import Unimported.Proofs.Ignore.Spelling
import Unimported.Proofs.Source.Reference

set_option autoImplicit false

namespace Unimported.Discovery

open Source (File)
open Unimported.Path (IsName)

variable {d : Disk} {s : Settings} {excludes : Settings.Excludes} {root start start' : Path}

/-! ## Arranging files in other spellings

Sorting and dropping repeats look at the components of paths, which are those of the other
spelling. Since the two lists are sorted each by its own paths, they are first made one list
of pairs; sorting that by either spelling is the same. -/

/-- Two spellings of one file. -/
def SameFile (f g : File) : Prop := f.path.components = g.path.components ∧ f.kind = g.kind

theorem dropRepeats_sameFile {files files' : List File} (h : List.Forall₂ SameFile files files') :
    List.Forall₂ SameFile (dropRepeats files) (dropRepeats files') := by
  induction h with
  | nil => exact .nil
  -- a file is compared with the one that is kept next, and those are again two spellings of
  -- one file
  | @cons f g rest rest' hfile hrest ih =>
    rw [dropRepeats, dropRepeats]
    generalize dropRepeats rest = kept at ih
    generalize dropRepeats rest' = kept' at ih
    cases ih with
    | nil => exact .cons hfile .nil
    | @cons next next' others others' hnext hothers =>
      have hsame : f.path.same next.path = g.path.same next'.path := by
        rw [Bool.eq_iff_iff, Path.same_iff, Path.same_iff, hfile.1, hnext.1]
      simp only [hsame]
      split
      · exact .cons hfile hothers
      · exact .cons hfile (.cons hnext hothers)

/-- Lists of files in two spellings are one list of pairs. -/
theorem exists_pairs {files files' : List File} (h : List.Forall₂ SameFile files files') :
    ∃ pairs : List (File × File), (∀ p ∈ pairs, SameFile p.1 p.2) ∧
      pairs.map Prod.fst = files ∧ pairs.map Prod.snd = files' := by
  induction h with
  | nil => exact ⟨[], by simp, rfl, rfl⟩
  | @cons f g rest rest' hfile hrest ih =>
    obtain ⟨pairs, hpairs, rfl, rfl⟩ := ih
    exact ⟨(f, g) :: pairs, List.forall_mem_cons.2 ⟨hfile, hpairs⟩, rfl, rfl⟩

/-- **Files are arranged alike in both spellings.** Pairs are sorted as well by their first spelling
as by their second. -/
theorem arrange_sameFile {files files' : List File} (h : List.Forall₂ SameFile files files') :
    List.Forall₂ SameFile (arrange files) (arrange files') := by
  obtain ⟨pairs, hpairs, rfl, rfl⟩ := exists_pairs h
  let sortedPairs := pairs.mergeSort fun p q => p.1.path.le q.1.path
  have hle : ∀ p ∈ pairs, ∀ q ∈ pairs, p.1.path.le q.1.path = p.2.path.le q.2.path := by
    intro p hp q hq
    rw [Path.le, Path.le, Path.sortKey, Path.sortKey, Path.sortKey, Path.sortKey,
      (hpairs p hp).1, (hpairs q hq).1]
  have hfst : sortedPairs.map Prod.fst = sorted (pairs.map Prod.fst) :=
    List.map_mergeSort fun _ _ _ _ => rfl
  have hsnd : sortedPairs.map Prod.snd = sorted (pairs.map Prod.snd) := List.map_mergeSort hle
  refine dropRepeats_sameFile ?_
  change List.Forall₂ SameFile (sorted _) (sorted _)
  rw [← hfst, ← hsnd, List.forall₂_map_left_iff, List.forall₂_map_right_iff, List.forall₂_same]
  intro p hp
  exact hpairs p (List.mem_mergeSort.1 hp)

/-! ## Two walks in step

Below a start a walk depends on the node that is there, on the ignore levels, and on the
length of the path. `Alike` says that two starts agree in all three, and the mutual
recursion below follows that of the walk: each step is taken in both at once, with the way
down from the start and the levels of both as what varies. -/

/-- The names behind a directory that a walk looks at when it enters it. -/
def entryNames (respectIgnoreFiles : Bool) : List (List Name) :=
  [] :: if respectIgnoreFiles then Ignore.levelNames else []

/-- Two spellings of a directory that a walk does not tell apart. -/
structure Alike (d : Disk) (respectIgnoreFiles : Bool) (start start' : Path) (top : Entries) :
    Prop where
  components : start.components = start'.components
  there : d.node start = .ok (.directory top)
  there' : d.node start' = .ok (.directory top)
  located : ∃ found, d.location start = .ok found ∧ d.location start' = .ok found
  steady : respectIgnoreFiles = true → Ignore.Steady start ∧ Ignore.Steady start'
  fits : ∀ names entries, (Node.directory top).at? names = some (.directory entries) →
    ∀ more ∈ entryNames respectIgnoreFiles,
      (Disk.Fits (start.extend (names ++ more)) ↔ Disk.Fits (start'.extend (names ++ more)))

/-- Two walks meet the same: a file by way of the same names, or an obstacle. -/
inductive Met (start start' : Path) (top : Entries) : Visit → Visit → Prop where
  | file {names : List Name} {bytes : List Text.Byte}
    (hfile : (Node.directory top).at? names = some (.file bytes)) :
    Met start start' top (.file (start.extend names)) (.file (start'.extend names))
  | obstacle (reason reason' : String) :
    Met start start' top (.obstacle reason) (.obstacle reason')

section Walks

variable {respect : Bool} {top : Entries}

theorem Alike.names_of_at? (hd : d.WellFormed) (h : Alike d respect start start' top)
    {names : List Name} {node : Node} (hat : (Node.directory top).at? names = some node) :
    (∀ n ∈ names, IsName n) ∧ node.WellFormed := by
  obtain ⟨hnames, hnode⟩ := (hd.of_node h.there).1.of_at? hat
  exact ⟨fun n hn => (hnames n hn).1, hnode⟩

theorem Alike.bytes_ne_nil (h : Alike d respect start start' top) :
    start.bytes ≠ [] ∧ start'.bytes ≠ [] := by
  obtain ⟨_, hresolve, -⟩ := Disk.resolve_of_node h.there
  have hstart := (Disk.admissible_of_resolve hresolve).2.1
  exact ⟨hstart, mt (Path.bytes_eq_nil_congr h.components).2 hstart⟩

/-- What the level of a directory is read from is the same through both spellings. -/
theorem Alike.node_levelNames (hd : d.WellFormed) (h : Alike d true start start' top)
    {front more : List Name} {entries : Entries}
    (hat : (Node.directory top).at? front = some (.directory entries))
    (hmore : more ∈ Ignore.levelNames) :
    d.node ((start.extend front).extend more) = d.node ((start'.extend front).extend more) := by
  obtain ⟨hstart, hstart'⟩ := h.bytes_ne_nil
  have hnames : ∀ n ∈ front ++ more, IsName n :=
    List.forall_mem_append.2 ⟨(h.names_of_at? hd hat).1, Ignore.isName_of_levelNames hmore⟩
  have hne : front ++ more ≠ [] :=
    List.append_ne_nil_of_right_ne_nil front (Ignore.levelNames_ne_nil hmore)
  rw [← Path.extend_append, ← Path.extend_append]
  apply Disk.node_of_resolve_eq
  apply Disk.resolve_congr (Path.components_extend_congr h.components hstart hnames)
  · exact h.fits front entries hat more (List.mem_cons_of_mem _ hmore)
  · exact Path.last_extend hstart hne hnames
  · exact Path.last_extend hstart' hne hnames

/-- Entering a directory keeps levels judging alike. -/
theorem Alike.enter (hd : d.WellFormed) (h : Alike d respect start start' top)
    {front : List Name} {entries : Entries} {l l' : Ignore.Levels}
    (hat : (Node.directory top).at? front = some (.directory entries))
    (hjudge : Ignore.JudgeAlike l l' (start.extend front) (start'.extend front)) :
    Ignore.JudgeAlike (enter d respect l (start.extend front))
      (enter d respect l' (start'.extend front)) (start.extend front) (start'.extend front) := by
  cases respect with
  | false => exact hjudge
  | true =>
    obtain ⟨hsteady, hsteady'⟩ := h.steady rfl
    have hfront := (h.names_of_at? hd hat).1
    apply hjudge.push (hsteady.extend hfront) (hsteady'.extend hfront)
    intro more hmore
    exact h.node_levelNames hd hat hmore

mutual

/-- **Two walks in step** from a node on. `front` leads there from the start. -/
theorem visitsOf_alike (hd : d.WellFormed) (h : Alike d respect start start' top) :
    ∀ (node : Node) (front : List Name) (l l' : Ignore.Levels),
      (Node.directory top).at? front = some node →
      Ignore.JudgeAlike l l' (start.extend front) (start'.extend front) →
      List.Forall₂ (Met start start' top)
        (visitsOf (Discovery.enter d respect) l (start.extend front) node)
        (visitsOf (Discovery.enter d respect) l' (start'.extend front) node)
  | .file bytes, front, l, l', hat, _ => .cons (.file hat) .nil
  | .link _, _, _, _, _, _ => .nil
  | .directory entries, front, l, l', hat, hjudge => by
    have hfits := h.fits front entries hat [] List.mem_cons_self
    rw [List.append_nil, Disk.Fits, Disk.Fits] at hfits
    rw [visitsOf, visitsOf]
    -- both spellings fit or neither does, so both walks go on below or neither
    by_cases hlength : Disk.pathLimit < (start.extend front).bytes.length
    · have hlength' : Disk.pathLimit < (start'.extend front).bytes.length := by omega
      rw [if_pos hlength, if_pos hlength']
      exact .cons (.obstacle _ _) .nil
    · have hlength' : ¬ Disk.pathLimit < (start'.extend front).bytes.length := by omega
      rw [if_neg hlength, if_neg hlength']
      refine visitsBelow_alike hd h entries front _ _ ?_ (h.names_of_at? hd hat).2
        (h.enter hd hat hjudge)
      intro name node hget
      rw [Node.at?_append, hat, Option.bind_some, Node.at?_cons, hget, Option.bind_some,
        Node.at?_nil]

/-- The same below a directory. -/
theorem visitsBelow_alike (hd : d.WellFormed) (h : Alike d respect start start' top) :
    ∀ (entries : Entries) (front : List Name) (l l' : Ignore.Levels),
      (∀ name node, entries.get? name = some node →
        (Node.directory top).at? (front ++ [name]) = some node) →
      entries.WellFormed →
      Ignore.JudgeAlike l l' (start.extend front) (start'.extend front) →
      List.Forall₂ (Met start start' top)
        (visitsBelow (Discovery.enter d respect) l (start.extend front) entries)
        (visitsBelow (Discovery.enter d respect) l' (start'.extend front) entries)
  | .nil, _, _, _, _, _, _ => .nil
  | .cons name node rest, front, l, l', hget, hwf, hjudge => by
    obtain ⟨hname, hfresh, -, hrest⟩ := hwf
    -- the entry comes first, so its name finds it
    have hfirst : (Node.directory top).at? (front ++ [name]) = some node :=
      hget name node (by rw [Entries.get?_cons, if_pos rfl])
    -- both walks pass over the entry or neither does, since the levels judge alike
    have hpasses : passesOver l name ((start.extend front).join ⟨name⟩) node
        = passesOver l' name ((start'.extend front).join ⟨name⟩) node := by
      rw [passesOver, passesOver, hjudge.verdict?_eq hname.1]
    rw [visitsBelow, visitsBelow, hpasses]
    refine List.rel_append ?_ (visitsBelow_alike hd h rest front l l' ?_ hrest hjudge)
    · split
      · exact .nil
      · have hnode := visitsOf_alike hd h node (front ++ [name]) l l' hfirst
        rw [Path.extend_concat, Path.extend_concat] at hnode
        exact hnode (hjudge.join hname.1)
    · intro other node' hother
      refine hget other node' ?_
      rw [Entries.get?_cons, if_neg, hother]
      -- the names of entries are distinct
      rintro rfl
      rw [hfresh] at hother
      cases hother

end

/-- Levels before two walks judge alike. -/
theorem Alike.judgeAlike_start (h : Alike d respect start start' top) :
    Ignore.JudgeAlike (startLevels d respect start) (startLevels d respect start')
      start start' := by
  cases respect with
  | false =>
    intro names _ _
    exact .nil
  | true =>
    obtain ⟨hsteady, hsteady'⟩ := h.steady rfl
    obtain ⟨found, hfound, hfound'⟩ := h.located
    exact .atStart hsteady hsteady' hfound hfound'

/-- Ignore files above the start are the same ones. -/
theorem Alike.defects_eq (h : Alike d respect start start' top) :
    (startLevels d respect start).defects = (startLevels d respect start').defects := by
  cases respect with
  | false => rfl
  | true =>
    obtain ⟨found, hfound, hfound'⟩ := h.located
    rw [startLevels, startLevels, if_pos rfl, if_pos rfl, Ignore.Levels.atStart,
      Ignore.Levels.atStart, hfound, hfound']
    rfl

/-- **Whole walks in step.** -/
theorem walk_alike (hd : d.WellFormed) (h : Alike d respect start start' top) :
    List.Forall₂ (Met start start' top) (walk d respect start) (walk d respect start') := by
  -- whether a start is the standard input is asked of its components
  have hinput : start.same standardInput = start'.same standardInput := by
    rw [Bool.eq_iff_iff, Path.same_iff, Path.same_iff, h.components]
  rw [walk, walk, hinput]
  split
  · exact .nil
  · rw [h.there, h.there']
    refine List.rel_append ?_ (visitsOf_alike hd h (.directory top) [] _ _ rfl h.judgeAlike_start)
    rw [h.defects_eq, List.forall₂_same]
    intro visit hvisit
    rw [Option.mem_toList, defectVisit?] at hvisit
    split at hvisit
    · cases hvisit
    · exact Option.some.inj hvisit ▸ .obstacle _ _

end Walks

/-! ## Targets in other spellings

`Respelled` asks of a target what `Alike` asks of a start, and that exclude patterns do not
tell the spellings apart; `below?` limits both to the files that are there. Target by target
the lists of paths are then spellings of each other, and they are arranged alike. -/

/-- What names lead to from a path, by directories alone. -/
def below? (d : Disk) (start : Path) (names : List Name) : Option Node :=
  match d.node start with
  | .ok node => node.at? names
  | .error _ => none

/-- Exclude patterns give the same answer about each file below a directory in two spellings. -/
def ExcludeAlike (d : Disk) (excludes : Settings.Excludes) (root start start' : Path) : Prop :=
  ∀ names bytes, below? d start names = some (.file bytes) →
    excludes.matchPath ((start.extend names).relativeTo root)
      = excludes.matchPath ((start'.extend names).relativeTo root)

/-- Two spellings of a directory that nothing in a search sees. -/
structure Respelled (d : Disk) (s : Settings) (excludes : Settings.Excludes)
    (root target target' : Path) : Prop where
  relative : target.isAbsolute = false
  components : target.components = target'.components
  directory : d.hasDirectory (root.join target) = true
  directory' : d.hasDirectory (root.join target') = true
  /-- Exclude patterns do not tell them apart. -/
  excluded : ExcludeAlike d excludes root (root.join target) (root.join target')
  /-- What a walk looks at is within reach through both or through neither. -/
  fits : ∀ names entries, below? d (root.join target) names = some (.directory entries) →
    ∀ more ∈ entryNames s.respectIgnoreFiles,
      (Disk.Fits ((root.join target).extend (names ++ more)) ↔
        Disk.Fits ((root.join target').extend (names ++ more)))
  /-- Ignore rules are told nothing of the start. -/
  steady : s.respectIgnoreFiles = true →
    Ignore.Steady (root.join target) ∧ Ignore.Steady (root.join target')

section Targets

variable {target target' : Path}

/-- What is at a spelling is at the other one, in the same place. -/
theorem Respelled.alike (h : Respelled d s excludes root target target')
    (hroot : d.hasDirectory root = true) :
    ∃ top, Alike d s.respectIgnoreFiles (root.join target) (root.join target') top := by
  obtain ⟨_, hrootNode⟩ := exists_directory hroot
  obtain ⟨_, hrootResolve, -⟩ := Disk.resolve_of_node hrootNode
  have hcomponents : (root.join target).components = (root.join target').components :=
    Path.components_join_congr h.components (Disk.admissible_of_resolve hrootResolve).2.1 h.relative
  -- both spellings lead to a directory, and it is the same one
  obtain ⟨top, hnode⟩ := exists_directory h.directory
  obtain ⟨_, hnode'⟩ := exists_directory h.directory'
  obtain ⟨found, hresolve, hat⟩ := Disk.resolve_of_node hnode
  obtain ⟨_, hresolve', -⟩ := Disk.resolve_of_node hnode'
  have hsame := Disk.resolve_directory_congr hcomponents
    (Disk.admissible_of_resolve hresolve').2.2 hresolve hat
  have hlocated : ∀ p, d.resolve p = .ok (.taken found) → d.location p = .ok found := by
    intro p hp
    rw [Disk.location, hp]
    rfl
  refine ⟨top, hcomponents, hnode, Disk.node_of_resolve hsame hat,
    ⟨found, hlocated _ hresolve, hlocated _ hsame⟩, h.steady, ?_⟩
  intro names entries hnames
  refine h.fits names entries ?_
  rw [below?, hnode]
  exact hnames

/-- The candidates from two spellings of a directory are the same files. -/
theorem pathsFrom_respelled (hd : d.WellFormed) (hroot : d.hasDirectory root = true)
    (h : Respelled d s excludes root target target') :
    List.Forall₂ (fun p q : Path => p.components = q.components)
      (pathsFrom d s excludes root (root.join target))
      (pathsFrom d s excludes root (root.join target')) := by
  obtain ⟨top, halike⟩ := h.alike hroot
  -- the paths of what is met, before any are left out
  have hpaths : List.Forall₂ (fun p q : Path => p.components = q.components ∧
        admits s excludes root p = admits s excludes root q)
      ((walk d s.respectIgnoreFiles (root.join target)).filterMap Visit.path?)
      ((walk d s.respectIgnoreFiles (root.join target')).filterMap Visit.path?) := by
    refine List.rel_filterMap (fun visit visit' hmet => ?_) (walk_alike hd halike)
    cases hmet with
    | obstacle reason reason' => exact .none
    | @file names bytes hfile =>
      have hcomponents := Path.components_extend_congr halike.components halike.bytes_ne_nil.1
        (halike.names_of_at? hd hfile).1
      have hbelow : below? d (root.join target) names = some (.file bytes) := by
        rw [below?, halike.there]
        exact hfile
      refine .some ⟨hcomponents, ?_⟩
      rw [admits, admits, h.excluded names bytes hbelow, Source.extension?_congr hcomponents]
  have hfiltered := List.rel_filter (p := admits s excludes root) (q := admits s excludes root)
    (fun p q hpq => Bool.eq_iff_iff.1 hpq.2) hpaths
  exact hfiltered.imp fun p q hpq => hpq.1

/-- **Directory patterns do not tell spellings apart**, unless the name is a single dot. -/
theorem excludeAlike_of_directories (hd : d.WellFormed) {names : List Settings.DirectoryName}
    (hdots : ∀ name ∈ names, name.text ≠ ".") (hcomponents : start.components = start'.components)
    (hdirectory : d.hasDirectory start = true) :
    ExcludeAlike d (names.map Settings.DirectoryName.pattern) root start start' := by
  intro way bytes hway
  obtain ⟨top, hnode⟩ := exists_directory hdirectory
  obtain ⟨_, hresolve, -⟩ := Disk.resolve_of_node hnode
  have hstart := (Disk.admissible_of_resolve hresolve).2.1
  have hstart' := mt (Path.bytes_eq_nil_congr hcomponents).2 hstart
  rw [below?, hnode] at hway
  have hnames : ∀ n ∈ way, IsName n := fun n hn =>
    (((hd.of_node hnode).1.of_at? hway).1 n hn).1
  have hne : way ≠ [] := by
    rintro rfl
    cases hway
  -- such a pattern asks for a name among the directories on the way, and these are the same
  -- components
  rw [Bool.eq_iff_iff, Settings.matchPath_directories, Settings.matchPath_directories]
  refine exists_congr fun name => and_congr_right fun hname => ?_
  exact Path.mem_directories_relativeTo_congr (.inr (Path.last_extend hstart hne hnames))
    (.inr (Path.last_extend hstart' hne hnames))
    (Path.components_extend_congr hcomponents hstart hnames)
    (name.not_isTrivial (hdots name hname)) root

theorem sameFile_ofPath {p q : Path} (h : p.components = q.components) :
    SameFile (File.ofPath p) (File.ofPath q) := by
  refine ⟨h, ?_⟩
  rw [File.ofPath, File.ofPath, Source.kind?_congr h]

/-- What is found below targets in other spellings. -/
theorem files_respelled {targets targets' : List Path} (hd : d.WellFormed)
    (hroot : d.hasDirectory root = true)
    (htargets : List.Forall₂ (fun t t' => t = t' ∨ Respelled d s excludes root t t')
      targets targets') :
    List.Forall₂ SameFile (files d { s with targets := targets } excludes root)
      (files d { s with targets := targets' } excludes root) := by
  let filesFrom : Path → List File := fun start =>
    (pathsFrom d s excludes root start).map File.ofPath
  -- a target that is kept finds the same paths
  have hsame : ∀ start, List.Forall₂ SameFile (filesFrom start) (filesFrom start) := fun start =>
    List.forall₂_same.2 fun file _ => ⟨rfl, rfl⟩
  have htarget : ∀ t t', t = t' ∨ Respelled d s excludes root t t' →
      List.Forall₂ SameFile (filesFrom (root.join t)) (filesFrom (root.join t')) := by
    rintro t t' (rfl | h)
    · exact hsame (root.join t)
    · rw [List.forall₂_map_left_iff, List.forall₂_map_right_iff]
      exact (pathsFrom_respelled hd hroot h).imp fun p q => sameFile_ofPath
  have hstarts : List.Forall₂ (fun start start' =>
        List.Forall₂ SameFile (filesFrom start) (filesFrom start'))
      (starts { s with targets := targets } root) (starts { s with targets := targets' } root) := by
    -- without targets the root itself is the only start
    cases htargets with
    | nil => exact .cons (hsame root) .nil
    | cons hfirst hrest =>
      refine .cons (htarget _ _ hfirst) ?_
      rw [List.forall₂_map_left_iff, List.forall₂_map_right_iff]
      exact hrest.imp htarget
  rw [files_eq, files_eq]
  exact arrange_sameFile (List.rel_flatMap hstarts fun start start' h => h)

/-- **Targets in other spellings find the same files.** On a well-formed disk, with exclude patterns
of use, let each target of a second list be the target of the first, or another spelling of it that
nothing in a search sees. If one search fails, so does the other, for the same reason; otherwise
what they find are, one by one, files with the same components and of the same kind. Exclude
patterns that leave out directories by plain names never see a spelling. -/
theorem respelled_targets_agree (hd : d.WellFormed) (hexcludes : s.excludes = .ok excludes)
    {targets' : List Path}
    (htargets : List.Forall₂ (fun t t' => t = t' ∨ Respelled d s excludes root t t')
      s.targets targets') :
    ((∃ e, (find d s root).files = .error e ∧
        (find d { s with targets := targets' } root).files = .error e) ∨
      ∃ found found', (find d s root).files = .ok found ∧
        (find d { s with targets := targets' } root).files = .ok found' ∧
        List.Forall₂ SameFile found found') ∧
    ∀ names : List Settings.DirectoryName, (∀ name ∈ names, name.text ≠ ".") →
      ∀ start start' : Path, start.components = start'.components →
        d.hasDirectory start = true →
        ExcludeAlike d (names.map Settings.DirectoryName.pattern) root start start' := by
  constructor
  -- whether the search fails is told by the root and the patterns
  · cases hroot : d.hasDirectory root with
    | false =>
      obtain ⟨e, herror⟩ := find_files_of_not_directory hroot
      exact .inl ⟨e, herror s, herror _⟩
    | true =>
      have hexcludes' : ({ s with targets := targets' } : Settings).excludes = .ok excludes :=
        hexcludes
      exact .inr ⟨_, _, find_files hroot hexcludes, find_files hroot hexcludes',
        files_respelled hd hroot htargets⟩
  · intro names hdots start start' hcomponents hdirectory
    exact excludeAlike_of_directories hd hdots hcomponents hdirectory

end Targets

/-- The directory `src` with and without a slash and a dot more, where ignore files count and
nothing else is asked for. -/
theorem respelled_targets_agree_src :
    let name := Text.Utf8.ofString
    let d : Disk := ⟨(Node.directory .nil).put [name "p", name "src", name "a.ts"] (.file []), []⟩
    let root := Path.ofString "p"
    let s := { Settings.default with targets := [Path.ofString "src"], respectIgnoreFiles := true }
    let excludes := [nodeModules, dist].map Settings.DirectoryName.pattern
    let targets' := [Path.ofString "src//."]
    d.WellFormed ∧ s.excludes = .ok excludes ∧
      List.Forall₂ (fun t t' => t = t' ∨ Respelled d s excludes root t t') s.targets targets' ∧
      ((∃ e, (find d s root).files = .error e ∧
          (find d { s with targets := targets' } root).files = .error e) ∨
        ∃ found found', (find d s root).files = .ok found ∧
          (find d { s with targets := targets' } root).files = .ok found' ∧
          List.Forall₂ SameFile found found') := by
  intro name d root s excludes targets'
  have hd : d.WellFormed := ⟨by decide +kernel, _, rfl⟩
  have hexcludes : s.excludes = .ok excludes :=
    Settings.readExcludes_directories [nodeModules, dist]
  have hcomponents : (root.join (Path.ofString "src")).components
      = (root.join (Path.ofString "src//.")).components := by decide +kernel
  have hdirectory : d.hasDirectory (root.join (Path.ofString "src")) = true := by decide +kernel
  have hdots : ∀ name ∈ [nodeModules, dist], name.text ≠ "." := by decide
  have hthere : ∀ names, below? d (root.join (Path.ofString "src")) names
      = (Node.directory (.cons (name "a.ts") (.file []) .nil)).at? names := fun names => rfl
  have hrespelled : Respelled d s excludes root (Path.ofString "src") (Path.ofString "src//.") := by
    refine ⟨by decide +kernel, by decide +kernel, hdirectory, by decide +kernel,
      excludeAlike_of_directories hd hdots hcomponents hdirectory, ?_, fun _ => ?_⟩
    · intro names entries hat
      rw [hthere] at hat
      cases names with
      | nil => decide +kernel
      | cons n names =>
        -- there is no directory farther down
        exfalso
        obtain ⟨_, child, hentries, hget, hchild⟩ := Node.at?_cons_eq_some.1 hat
        obtain rfl := Node.directory.inj hentries
        rw [Entries.get?_cons] at hget
        split at hget
        · obtain rfl := Option.some.inj hget
          cases names <;> cases hchild
        · cases hget
    · exact ⟨⟨by decide +kernel, by decide +kernel, by decide +kernel⟩,
        by decide +kernel, by decide +kernel, by decide +kernel⟩
  have htargets : List.Forall₂ (fun t t' => t = t' ∨ Respelled d s excludes root t t')
      s.targets targets' := .cons (.inr hrespelled) .nil
  exact ⟨hd, hexcludes, htargets, (respelled_targets_agree hd hexcludes htargets).1⟩

/-! ## Where the spelling is seen

Each of the four is a search on a small disk. What a search finds on it is computed
(`Yields`) up to the sorting, which does not evaluate: the lists have one file at most, so
there is nothing to sort. -/

/-- What is found below a single target, which is a relative path of a directory. -/
structure FindsBelow (d : Disk) (s : Settings) (root target : Path) (paths : List Path) :
    Prop where
  relative : target.isAbsolute = false
  directory : d.hasDirectory (root.join target) = true
  found : (find d { s with targets := [target] } root).files = .ok (paths.map File.ofPath)

/-- What can be computed of a search that meets candidates in strict order. -/
def Yields (d : Disk) (s : Settings) (excludes : Settings.Excludes) (root target : Path)
    (paths : List Path) : Prop :=
  d.hasDirectory root = true ∧ target.isAbsolute = false ∧
    d.hasDirectory (root.join target) = true ∧
    pathsFrom d s excludes root (root.join target) = paths

instance (d : Disk) (s : Settings) (excludes : Settings.Excludes) (root target : Path)
    (paths : List Path) : Decidable (Yields d s excludes root target paths) :=
  inferInstanceAs (Decidable (_ ∧ _))

theorem Yields.findsBelow {target : Path} {paths : List Path}
    (h : Yields d s excludes root target paths) (hexcludes : s.excludes = .ok excludes)
    (hbefore : paths.Pairwise Path.Before) : FindsBelow d s root target paths := by
  obtain ⟨hroot, hrelative, hdirectory, hpaths⟩ := h
  have hall : (starts { s with targets := [target] } root).flatMap
      (pathsFrom d { s with targets := [target] } excludes root) = paths :=
    (List.flatMap_singleton _ _).trans hpaths
  exact ⟨hrelative, hdirectory,
    find_files_of_before (s := { s with targets := [target] }) hroot hexcludes hall hbefore⟩

/-- **Where the spelling of a target is seen.** An exclude pattern for a file matches its path below
`src`, but not below `src//`. So does an ignore rule for a path, in the directory itself where the
start opens with a second dot and slash, and above it where the start is the working directory. And
below a target that is spelled at great length a directory is out of reach. -/
theorem target_spelling_seen :
    let name := Text.Utf8.ofString
    let path := Path.ofString
    let disk files cwd : Disk :=
      ⟨files.foldl (fun tree (file : List Name × String) => tree.put file.1 (.file (name file.2)))
        (Node.directory .nil), cwd⟩
    let plain := disk [([name "p", name "src", name "a.ts"], "")] []
    let ruled :=
      disk [([name "src", name ".ignore"], "/src/a.ts"), ([name "src", name "a.ts"], "")] []
    let above := disk [([name ".ignore"], "/*/a.ts"), ([name "w", name "a.ts"], "")] [name "w"]
    let deep := disk [([name "src", List.replicate 100 0x64, name "a.ts"], "")] []
    let far : Path := ⟨name "src" ++ (List.replicate 2000 [slash, dot]).flatten⟩
    let s := { Settings.default with exclude := [] }
    let excluding := { s with exclude := ["src/a.ts"] }
    let respecting := { s with respectIgnoreFiles := true }
    (∀ d ∈ [plain, ruled, above, deep], d.root.WellFormed ∧ isDirectory d.root = true) ∧
    s.excludes = .ok [] ∧ (∃ excludes, excluding.excludes = .ok excludes) ∧
    ((path "src").components = (path "src//").components ∧
      FindsBelow plain excluding (path "p") (path "src") [] ∧
      FindsBelow plain excluding (path "p") (path "src//") [path "p/src//a.ts"]) ∧
    ((path "./src").components = (path "./src//").components ∧
      FindsBelow ruled respecting (path ".") (path "./src") [] ∧
      FindsBelow ruled respecting (path ".") (path "./src//") [path "././src//a.ts"]) ∧
    ((path ".").components = (path "./.").components ∧
      FindsBelow above respecting (path ".//") (path ".") [] ∧
      FindsBelow above respecting (path ".//") (path "./.") [path ".//././a.ts"]) ∧
    (path "src").components = far.components ∧
      FindsBelow deep s (path ".") (path "src")
        [(path "./src").extend [List.replicate 100 0x64, name "a.ts"]] ∧
      FindsBelow deep s (path ".") far [] := by
  intro name path disk plain ruled above deep far s excluding respecting
  let pattern : Glob.Pattern := "src/a.ts".toList.map fun c => .literal (Text.Utf8.encode [c])
  have hnone : s.excludes = .ok [] := rfl
  have hnone' : respecting.excludes = .ok [] := rfl
  have hpattern : excluding.excludes = .ok [pattern] := rfl
  have htrees : ∀ d ∈ [plain, ruled, above, deep],
      d.root.WellFormed ∧ isDirectory d.root = true := by decide +kernel
  have hsame : (path "src").components = (path "src//").components ∧
      (path "./src").components = (path "./src//").components ∧
      (path ".").components = (path "./.").components ∧
      (path "src").components = far.components := by decide +kernel
  have hplain : Yields plain excluding [pattern] (path "p") (path "src") [] := by decide +kernel
  have hplain' : Yields plain excluding [pattern] (path "p") (path "src//")
    [path "p/src//a.ts"] := by decide +kernel
  have hruled : Yields ruled respecting [] (path ".") (path "./src") [] := by decide +kernel
  have hruled' : Yields ruled respecting [] (path ".") (path "./src//") [path "././src//a.ts"] := by
    decide +kernel
  have habove : Yields above respecting [] (path ".//") (path ".") [] := by decide +kernel
  have habove' : Yields above respecting [] (path ".//") (path "./.") [path ".//././a.ts"] := by
    decide +kernel
  have hdeep : Yields deep s [] (path ".") (path "src")
    [(path "./src").extend [List.replicate 100 0x64, name "a.ts"]] := by decide +kernel
  have hdeep' : Yields deep s [] (path ".") far [] := by decide +kernel
  -- What is left is about these searches as such, and must not be evaluated again.
  clear_value name path disk plain ruled above deep far s excluding respecting pattern
  obtain ⟨hsrc, hhere, hdot, hfar⟩ := hsame
  exact ⟨htrees, hnone, ⟨_, hpattern⟩,
    ⟨hsrc, hplain.findsBelow hpattern .nil,
      hplain'.findsBelow hpattern (List.pairwise_singleton _ _)⟩,
    ⟨hhere, hruled.findsBelow hnone' .nil,
      hruled'.findsBelow hnone' (List.pairwise_singleton _ _)⟩,
    ⟨hdot, habove.findsBelow hnone' .nil,
      habove'.findsBelow hnone' (List.pairwise_singleton _ _)⟩,
    hfar, hdeep.findsBelow hnone (List.pairwise_singleton _ _), hdeep'.findsBelow hnone .nil⟩

end Unimported.Discovery
