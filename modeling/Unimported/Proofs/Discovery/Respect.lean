/-
Respecting ignore files.

Ignore files are meant to make a search find less. A walk that respects them meets nothing that it
would not meet otherwise, with one exception: a rule that keeps something also keeps it from being
hidden. `respecting_finds_less` says that this is the only way in which a file can be found with
ignore files alone, and `respecting_finds_hidden` that it is one.
-/
import Unimported.Proofs.Discovery.Candidates

set_option autoImplicit false

namespace Unimported.Discovery

open Source (File)

variable {d : Disk} {start p : Path}

/-! ## Levels on the way

Which rules count within a directory depends on all directories on the way to it. Following
the names from the start gives them without the walk, and that is what a statement on a kept
name can refer to. -/

/-- The levels within the directory to which names lead from a path, if `levels` count at the path:
each directory on the way adds its own. -/
def levelsFrom (d : Disk) (levels : Ignore.Levels) (p : Path) : List Name → Ignore.Levels
  | [] => enter d true levels p
  | name :: names => levelsFrom d (enter d true levels p) (p.join ⟨name⟩) names

theorem levelsFrom_concat (levels : Ignore.Levels) (p : Path) (names : List Name) (name : Name) :
    levelsFrom d levels p (names ++ [name])
      = enter d true (levelsFrom d levels p names) (p.extend (names ++ [name])) := by
  induction names generalizing levels p with
  | nil => rfl
  | cons first names ih =>
    rw [List.cons_append, levelsFrom, ih]
    rfl

/-- The levels that count within the directory to which names lead from the start of a walk. -/
def levelsWithin (d : Disk) (start : Path) (front : List Name) : Ignore.Levels :=
  levelsFrom d (startLevels d true start) start front

theorem levelsWithin_concat (front : List Name) (name : Name) :
    levelsWithin d start (front ++ [name])
      = enter d true (levelsWithin d start front) (start.extend (front ++ [name])) :=
  levelsFrom_concat _ start front name

/-- A name on the way is hidden, and a rule keeps what it stands for. `front` leads from the start
of the walk to where the names begin; all of them but the last stand for directories. -/
def KeepsHidden (d : Disk) (start : Path) (front names : List Name) : Prop :=
  ∃ before name behind, names = before ++ name :: behind ∧ isHidden name = true ∧
    (levelsWithin d start (front ++ before)).verdict?
      (start.extend (front ++ before ++ [name])) (!behind.isEmpty) = some .keep

theorem KeepsHidden.cons {front names : List Name} {name : Name}
    (h : KeepsHidden d start (front ++ [name]) names) :
    KeepsHidden d start front (name :: names) := by
  obtain ⟨before, hidden, behind, rfl, hhidden, hkeep⟩ := h
  refine ⟨name :: before, hidden, behind, rfl, hhidden, ?_⟩
  rwa [List.append_cons]

/-- A walk does not pass over something hidden only if a rule keeps it. -/
theorem keep_of_not_passesOver {levels : Ignore.Levels} {name : Name} {node : Node}
    (h : passesOver levels name p node = false) (hname : isHidden name = true) :
    levels.verdict? p (isDirectory node) = some .keep := by
  rw [passesOver] at h
  cases hverdict : levels.verdict? p (isDirectory node) with
  | none =>
    simp only [hverdict, hname] at h
    cases h
  | some verdict =>
    cases verdict with
    | keep => rfl
    | ignore =>
      simp only [hverdict] at h
      cases h

/-! ## Walks

A walk with ignore files passes over less than one without them in one case only: something
hidden is kept. So the two walks are compared node by node. The induction carries that the
levels are those on the way, and shows the way to the file as well, since the exception is
about a name on it. -/

/-- Whether a walk without ignore files meets a file, going on from a node at a path. -/
def MeetsPlainly (d : Disk) (start p q : Path) (node : Node) : Prop :=
  .file q ∈ visitsOf (enter d false) (startLevels d false start) p node

mutual

/-- **What a walk with ignore files meets** has a path of names. It is met without them too, or
something hidden on the way is kept. -/
theorem visitsOf_respecting : ∀ (node : Node) (front : List Name) (levels : Ignore.Levels),
    enter d true levels (start.extend front) = levelsWithin d start front →
    .file p ∈ visitsOf (enter d true) levels (start.extend front) node →
    ∃ names, p = start.extend (front ++ names) ∧ names.isEmpty = !isDirectory node ∧
      (MeetsPlainly d start (start.extend front) p node ∨ KeepsHidden d start front names)
  | .file _, front, levels, _, h => by
    rw [visitsOf] at h
    obtain rfl := Visit.file.inj (List.mem_singleton.1 h)
    refine ⟨[], by rw [List.append_nil], rfl, .inl ?_⟩
    rw [MeetsPlainly, visitsOf]
    exact h
  | .link _, front, levels, _, h => by cases h
  | .directory entries, front, levels, hlevels, h => by
    rw [visitsOf] at h
    -- a directory too far away cannot be opened, with ignore files or without
    by_cases hlength : Disk.pathLimit < (start.extend front).bytes.length
    · rw [if_pos hlength] at h
      cases List.mem_singleton.1 h
    · rw [if_neg hlength, hlevels] at h
      obtain ⟨name, names, hp, hplain⟩ := visitsBelow_respecting entries front h
      refine ⟨name :: names, hp, rfl, hplain.imp_left fun hplain => ?_⟩
      rw [MeetsPlainly, visitsOf, if_neg hlength]
      exact hplain

/-- The same below a directory. -/
theorem visitsBelow_respecting : ∀ (entries : Entries) (front : List Name),
    .file p ∈ visitsBelow (enter d true) (levelsWithin d start front) (start.extend front)
      entries →
    ∃ name names, p = start.extend (front ++ name :: names) ∧
      (.file p ∈ visitsBelow (enter d false) (startLevels d false start) (start.extend front)
          entries ∨
        KeepsHidden d start front (name :: names))
  | .nil, front, h => by cases h
  | .cons name node rest, front, h => by
    rw [visitsBelow, List.mem_append] at h
    -- the file was met below the first entry or below the others
    rcases h with h | h
    · cases hpasses : passesOver (levelsWithin d start front) name
          ((start.extend front).join ⟨name⟩) node with
      | true =>
        rw [hpasses] at h
        cases h
      | false =>
        rw [hpasses, ← Path.extend_concat] at h
        rw [← Path.extend_concat] at hpasses
        obtain ⟨names, hp, hnode, hplain⟩ := visitsOf_respecting node (front ++ [name]) _
          (levelsWithin_concat front name).symm h
        refine ⟨name, names, by rw [hp, List.append_assoc]; rfl, ?_⟩
        by_cases hname : isHidden name = true
        · -- a walk without ignore files would pass over it
          right
          refine ⟨[], name, names, rfl, hname, ?_⟩
          rw [List.append_nil, hnode, Bool.not_not]
          exact keep_of_not_passesOver hpasses hname
        · refine hplain.imp (fun hplain => ?_) KeepsHidden.cons
          have hvisible : passesOver (startLevels d false start) name
              ((start.extend front).join ⟨name⟩) node = false := Bool.eq_false_iff.2 hname
          rw [visitsBelow, List.mem_append, hvisible, ← Path.extend_concat]
          exact .inl hplain
    · obtain ⟨found, names, hp, hplain⟩ := visitsBelow_respecting rest front h
      refine ⟨found, names, hp, hplain.imp_left fun hplain => ?_⟩
      rw [visitsBelow, List.mem_append]
      exact .inr hplain

end

/-- A whole walk. -/
theorem walk_respecting (h : .file p ∈ walk d true start) :
    .file p ∈ walk d false start ∨
      ∃ names, p = start.extend names ∧ KeepsHidden d start [] names := by
  rw [file_mem_walk_iff] at h ⊢
  obtain ⟨hstart, node, hnode, h⟩ := h
  by_cases hdirectory : isDirectory node = true
  · rw [if_pos hdirectory] at h
    obtain ⟨names, hp, -, hplain⟩ := visitsOf_respecting node [] _ rfl h
    refine hplain.imp (fun hplain => ⟨hstart, node, hnode, ?_⟩) fun hkeeps => ⟨names, hp, hkeeps⟩
    rw [if_pos hdirectory]
    exact hplain
  · rw [if_neg hdirectory] at h
    exact .inl ⟨hstart, node, hnode, by rwa [if_neg hdirectory]⟩

/-! ## What is found

The candidates are filtered alike in both searches, so what holds of the walks holds of
them. Of several spellings either search may keep another one, and therefore components are
compared. -/

/-- The settings, with ignore files respected or not. -/
def respecting (s : Settings) (respect : Bool) : Settings :=
  { s with respectIgnoreFiles := respect }

theorem pathsFrom_respecting {s : Settings} {excludes : Settings.Excludes} {root : Path}
    (h : p ∈ pathsFrom d (respecting s true) excludes root start) :
    p ∈ pathsFrom d (respecting s false) excludes root start ∨
      ∃ names, p = start.extend names ∧ KeepsHidden d start [] names := by
  obtain ⟨hmet, hadmits⟩ := mem_pathsFrom_iff_walk.1 h
  exact (walk_respecting hmet).imp_left fun hplain => mem_pathsFrom_iff_walk.2 ⟨hplain, hadmits⟩

/-- Whether a search fails, and why, does not depend on ignore files. -/
theorem find_respecting (d : Disk) (s : Settings) (root : Path) :
    (∃ e, ∀ respect, (find d (respecting s respect) root).files = .error e) ∨
      ∃ excludes, ∀ respect, (find d (respecting s respect) root).files
        = .ok (files d (respecting s respect) excludes root) := by
  rcases find_cases d s root with ⟨e, herror⟩ | ⟨excludes, -, hok⟩
  · exact .inl ⟨e, fun respect => herror (respecting s respect) rfl⟩
  · exact .inr ⟨excludes, fun respect => hok (respecting s respect) rfl⟩

/-- **Respecting ignore files makes a search find less**, but for what is hidden and kept. Whether
a search fails, and why, does not depend on ignore files. If it does not, each file that is found
with ignore files is found without them too, in some spelling, unless a name below the start on its
way is hidden and an ignore rule keeps what it stands for. -/
theorem respecting_finds_less (d : Disk) (s : Settings) (root : Path) :
    (∀ e, (find d (respecting s true) root).files = .error e ↔
      (find d (respecting s false) root).files = .error e) ∧
    ∀ found all, (find d (respecting s true) root).files = .ok found →
      (find d (respecting s false) root).files = .ok all →
      ∀ f ∈ found, (∃ g ∈ all, g.path.components = f.path.components) ∨
        ∃ start ∈ starts s root, ∃ names, f.path = start.extend names ∧
          KeepsHidden d start [] names := by
  rcases find_respecting d s root with ⟨e, herror⟩ | ⟨excludes, hok⟩
  · rw [herror, herror]
    refine ⟨fun _ => Iff.rfl, fun found all hfound => ?_⟩
    cases hfound
  · rw [hok, hok]
    constructor
    · intro e
      constructor <;> intro h <;> cases h
    intro found all hfound hall f hf
    obtain rfl := Except.ok.inj hfound
    obtain rfl := Except.ok.inj hall
    -- the file was met from a start
    rw [files_eq] at hf
    obtain ⟨start, hstart, hmet⟩ := List.mem_flatMap.1 (arrange_subset _ hf)
    obtain ⟨p, hp, rfl⟩ := List.mem_map.1 hmet
    refine (pathsFrom_respecting hp).imp (fun hplain => ?_) fun hkept => ⟨start, hstart, hkept⟩
    rw [files_eq]
    apply exists_arrange
    exact List.mem_flatMap.2 ⟨start, hstart, List.mem_map_of_mem hplain⟩

/-- **A hidden file that a rule keeps** is found with ignore files alone. -/
theorem respecting_finds_hidden :
    let name (n : String) : Name := (Path.ofString n).bytes
    let rule : List Text.Byte := Text.Utf8.encode "!.env.ts\n".toList
    let project : Node := .directory
      (.cons (name ".ignore") (.file rule) (.cons (name ".env.ts") (.file []) .nil))
    let d : Disk := ⟨.directory (.cons (name "p") project .nil), []⟩
    let s : Settings := { Settings.default with targets := [], exclude := [] }
    let root := Path.ofString "p"
    (find d (respecting s true) root).files = .ok [File.ofPath (Path.ofString "p/.env.ts")] ∧
      (find d (respecting s false) root).files = .ok [] := by
  intro name rule project d s root
  have hroot : d.hasDirectory root = true := by decide +kernel
  have hrespecting : (starts (respecting s true) root).flatMap
      (pathsFrom d (respecting s true) [] root) = [Path.ofString "p/.env.ts"] := by decide +kernel
  have hplain : (starts (respecting s false) root).flatMap
      (pathsFrom d (respecting s false) [] root) = [] := by decide +kernel
  have hexcludes : ∀ respect, (respecting s respect).excludes = .ok [] := fun _ => rfl
  clear_value d s root
  exact ⟨find_files_of_before hroot (hexcludes true) hrespecting (List.pairwise_singleton _ _),
    find_files_of_before hroot (hexcludes false) hplain .nil⟩

end Unimported.Discovery
