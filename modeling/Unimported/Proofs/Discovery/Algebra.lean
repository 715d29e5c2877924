/-
Discovery and its settings.

Targets and extensions add up: what is found with two lists together is what is found with the one
or with the other. Exclude patterns take away: with more of them, what is left is what they do not
match. So the order of targets and their repetition make no difference, and it can be said which
way a change of the settings moves what is found. `settings_add_up` is the main result.
-/
import Unimported.Proofs.Discovery.Candidates
import Unimported.Proofs.Settings.Exclude

set_option autoImplicit false

namespace Unimported.Discovery

open Source (File)

variable {d : Disk} {s t : Settings} {excludes : Settings.Excludes} {root start p q : Path}

/-! ## What is found, in any spelling

Where a file is met from several starts, which of its spellings is kept depends on all of
them. So the laws are about components: `Finds` asks for the path in some spelling, and
comes down to `Meets`, in which neither the order nor repeats play a part. -/

/-- Discovery succeeds and finds the path in some spelling. -/
def Finds (d : Disk) (s : Settings) (root p : Path) : Prop :=
  ∃ found, (find d s root).files = .ok found ∧ ∃ f ∈ found, f.path.components = p.components

/-- From some start a candidate is met that is a spelling of the path. -/
def Meets (d : Disk) (s : Settings) (excludes : Settings.Excludes) (root p : Path) : Prop :=
  ∃ start ∈ starts s root, ∃ q ∈ pathsFrom d s excludes root start, q.components = p.components

/-- Nothing is lost or added when candidates are arranged. -/
theorem exists_mem_files :
    (∃ f ∈ files d s excludes root, f.path.components = p.components) ↔
      Meets d s excludes root p := by
  rw [files_eq]
  constructor
  · rintro ⟨f, hf, hp⟩
    obtain ⟨start, hstart, hmet⟩ := List.mem_flatMap.1 (arrange_subset _ hf)
    obtain ⟨q, hq, rfl⟩ := List.mem_map.1 hmet
    exact ⟨start, hstart, q, hq, hp⟩
  · rintro ⟨start, hstart, q, hq, hp⟩
    have hmet : File.ofPath q ∈ (starts s root).flatMap fun start =>
        (pathsFrom d s excludes root start).map File.ofPath :=
      List.mem_flatMap.2 ⟨start, hstart, List.mem_map_of_mem hq⟩
    obtain ⟨f, hf, hsame⟩ := exists_arrange hmet
    exact ⟨f, hf, hsame.trans hp⟩

/-- **What is found** is what is met, at a directory and with exclude patterns of use. -/
theorem finds_iff :
    Finds d s root p ↔ d.hasDirectory root = true ∧
      ∃ excludes, s.excludes = .ok excludes ∧ Meets d s excludes root p := by
  simp only [Finds, find_files_eq_ok_iff]
  constructor
  · rintro ⟨_, ⟨hroot, excludes, hexcludes, rfl⟩, hp⟩
    exact ⟨hroot, excludes, hexcludes, exists_mem_files.1 hp⟩
  · rintro ⟨hroot, excludes, hexcludes, hmeets⟩
    exact ⟨_, ⟨hroot, excludes, hexcludes, rfl⟩, exists_mem_files.2 hmeets⟩

/-- With the same exclude patterns, discovery fails alike. -/
theorem find_error_congr (hexcludes : t.excludes = s.excludes) (e : DiscoveryError) :
    (find d t root).files = .error e ↔ (find d s root).files = .error e := by
  rcases find_cases d s root with ⟨e', herror⟩ | ⟨excludes, -, hok⟩
  · rw [herror s rfl, herror t hexcludes]
  · rw [hok s rfl, hok t hexcludes]
    simp only [reduceCtorEq]

/-- With the same exclude patterns, what is met by one of several settings is found by one of
them. -/
theorem finds_iff_exists {α : Type} {items : List α} {f : α → Settings}
    (hexcludes : ∀ item, (f item).excludes = s.excludes)
    (hmeets : ∀ excludes, Meets d s excludes root p ↔
      ∃ item ∈ items, Meets d (f item) excludes root p) :
    Finds d s root p ↔ ∃ item ∈ items, Finds d (f item) root p := by
  simp only [finds_iff, hexcludes, hmeets]
  constructor
  · rintro ⟨hroot, excludes, hs, item, hitem, h⟩
    exact ⟨item, hitem, hroot, excludes, hs, h⟩
  · rintro ⟨item, hitem, hroot, excludes, hs, h⟩
    exact ⟨hroot, excludes, hs, item, hitem, h⟩

/-! ## Targets

Each target is a start of its own. Only a list without targets is special, since it stands
for the root. -/

/-- The settings with these targets. -/
def withTargets (s : Settings) (targets : List Path) : Settings := { s with targets := targets }

/-- **Targets are searched one by one.** -/
theorem finds_withTargets {targets : List Path} (h : targets ≠ []) :
    Finds d (withTargets s targets) root p ↔
      ∃ target ∈ targets, Finds d (withTargets s [target]) root p := by
  refine finds_iff_exists (fun _ => rfl) fun excludes => ?_
  have hpaths : ∀ targets, pathsFrom d (withTargets s targets) = pathsFrom d s := fun _ => rfl
  have hstarts : starts (withTargets s targets) root = targets.map root.join :=
    if_neg (by simpa [withTargets] using h)
  have hsingle : ∀ target, starts (withTargets s [target]) root = [root.join target] :=
    fun _ => rfl
  simp [Meets, hpaths, hstarts, hsingle]

section Targets

variable {targets targets' : List Path}

theorem finds_withTargets_append (h : targets ≠ []) (h' : targets' ≠ []) :
    Finds d (withTargets s (targets ++ targets')) root p ↔
      Finds d (withTargets s targets) root p ∨ Finds d (withTargets s targets') root p := by
  rw [finds_withTargets h, finds_withTargets h',
    finds_withTargets (List.append_ne_nil_of_left_ne_nil h _)]
  simp only [List.mem_append, or_and_right, exists_or]

theorem finds_withTargets_mono (h : targets ≠ []) (hsub : targets ⊆ targets')
    (hfinds : Finds d (withTargets s targets) root p) :
    Finds d (withTargets s targets') root p := by
  have h' : targets' ≠ [] := by
    rintro rfl
    exact h (List.subset_nil.1 hsub)
  obtain ⟨target, htarget, hfinds⟩ := (finds_withTargets h).1 hfinds
  exact (finds_withTargets h').2 ⟨target, hsub htarget, hfinds⟩

theorem finds_withTargets_congr (h : ∀ target, target ∈ targets ↔ target ∈ targets') :
    Finds d (withTargets s targets) root p ↔ Finds d (withTargets s targets') root p := by
  by_cases hempty : targets = []
  · -- without any targets the root itself is searched
    have hempty' : targets' = [] := List.subset_nil.1 fun target htarget =>
      hempty ▸ (h target).2 htarget
    rw [hempty, hempty']
  · have hempty' : targets' ≠ [] := by
      rintro rfl
      exact hempty (List.subset_nil.1 fun target => (h target).1)
    rw [finds_withTargets hempty, finds_withTargets hempty']
    simp only [h]

end Targets

/-! ## Extensions

A candidate is admitted if its extension is one of those that are looked for, so the list
splits at the candidate. -/

/-- The settings with these extensions. -/
def withExtensions (s : Settings) (extensions : List String) : Settings :=
  { s with extensions := extensions }

theorem admits_withExtensions (extensions : List String) :
    admits (withExtensions s extensions) excludes root q = true ↔
      ∃ extension ∈ extensions, admits (withExtensions s [extension]) excludes root q = true := by
  cases hextension : q.extension? with
  | none => simp [admits, hextension]
  | some found =>
    simp only [admits, hextension, Option.any_some, wantsExtension, Settings.acceptsExtension,
      withExtensions, Bool.and_eq_true, List.any_eq_true, List.mem_singleton]
    constructor
    · rintro ⟨hincluded, hvalid, extension, hmem, hsame⟩
      exact ⟨extension, hmem, hincluded, hvalid, extension, rfl, hsame⟩
    · rintro ⟨extension, hmem, hincluded, hvalid, _, rfl, hsame⟩
      exact ⟨hincluded, hvalid, _, hmem, hsame⟩

/-- **Extensions are looked for one by one.** -/
theorem finds_withExtensions (extensions : List String) :
    Finds d (withExtensions s extensions) root p ↔
      ∃ extension ∈ extensions, Finds d (withExtensions s [extension]) root p := by
  refine finds_iff_exists (fun _ => rfl) fun excludes => ?_
  -- the walk is the same for all of them, and only what it admits differs
  simp only [Meets, mem_pathsFrom_iff_walk, admits_withExtensions extensions]
  constructor
  · rintro ⟨start, hstart, q, ⟨hmet, extension, hextension, hadmits⟩, hp⟩
    exact ⟨extension, hextension, start, hstart, q, ⟨hmet, hadmits⟩, hp⟩
  · rintro ⟨extension, hextension, start, hstart, q, ⟨hmet, hadmits⟩, hp⟩
    exact ⟨start, hstart, q, ⟨hmet, extension, hextension, hadmits⟩, hp⟩

theorem finds_withExtensions_append (extensions extensions' : List String) :
    Finds d (withExtensions s (extensions ++ extensions')) root p ↔
      Finds d (withExtensions s extensions) root p ∨
        Finds d (withExtensions s extensions') root p := by
  rw [finds_withExtensions, finds_withExtensions extensions, finds_withExtensions extensions']
  simp only [List.mem_append, or_and_right, exists_or]

theorem finds_withExtensions_mono {extensions extensions' : List String}
    (hsub : extensions ⊆ extensions') (hfinds : Finds d (withExtensions s extensions) root p) :
    Finds d (withExtensions s extensions') root p := by
  obtain ⟨extension, hextension, hfinds⟩ := (finds_withExtensions extensions).1 hfinds
  exact (finds_withExtensions extensions').2 ⟨extension, hsub hextension, hfinds⟩

/-! ## Exclude patterns

Patterns are matched against each candidate, so more of them are one more filter. From a
single start this holds of the list that is found, in order and spelling, since no path is
met there twice. From several starts a pattern may match one spelling of a file and not
another, and then only the inclusion holds. -/

/-- The settings with these exclude patterns. -/
def withExclude (s : Settings) (exclude : List String) : Settings := { s with exclude := exclude }

/-- More patterns leave out more. -/
theorem pathsFrom_append (before after : Settings.Excludes) :
    pathsFrom d s (before ++ after) root start
      = (pathsFrom d s before root start).filter fun q => !after.matchPath (q.relativeTo root) := by
  rw [pathsFrom, pathsFrom, List.filter_filter]
  refine List.filter_congr fun q _ => ?_
  rw [admits, admits, Settings.Excludes.matchPath_append, Bool.not_or, Bool.and_right_comm,
    Bool.and_comm]

theorem Meets.of_subset {fewer : Settings.Excludes} (hsub : fewer ⊆ excludes)
    (h : Meets d s excludes root p) : Meets d s fewer root p := by
  obtain ⟨start, hstart, q, hq, hp⟩ := h
  rw [mem_pathsFrom_iff_walk, admits, Bool.and_eq_true, Bool.not_eq_true'] at hq
  obtain ⟨hmet, hincluded, hwanted⟩ := hq
  have hfewer : fewer.matchPath (q.relativeTo root) = false :=
    Bool.eq_false_iff.2 fun h =>
      Bool.eq_false_iff.1 hincluded (Settings.Excludes.matchPath_of_subset hsub h)
  refine ⟨start, hstart, q, mem_pathsFrom_iff_walk.2 ⟨hmet, ?_⟩, hp⟩
  rw [admits, hfewer, hwanted]
  rfl

/-- **More exclude patterns find less.** -/
theorem finds_withExclude_anti {exclude exclude' : List String} (hsub : exclude ⊆ exclude')
    (h : Finds d (withExclude s exclude') root p) : Finds d (withExclude s exclude) root p := by
  obtain ⟨hroot, excludes, hexcludes, hmeets⟩ := finds_iff.1 h
  obtain ⟨fewer, hfewer, hpatterns⟩ := Settings.readExcludes_of_subset hexcludes hsub
  exact finds_iff.2 ⟨hroot, fewer, hfewer, hmeets.of_subset hpatterns⟩

/-- A walk meets its candidates in one spelling each. -/
theorem oneSpelling_pathsFrom (hd : d.WellFormed) :
    OneSpelling ((pathsFrom d s excludes root start).map File.ofPath) := by
  intro f hf g hg hsame
  obtain ⟨q, hq, rfl⟩ := List.mem_map.1 hf
  obtain ⟨q', hq', rfl⟩ := List.mem_map.1 hg
  have hmet := (mem_pathsFrom_iff_walk.1 hq).1
  have hmet' := (mem_pathsFrom_iff_walk.1 hq').1
  rw [eq_of_mem_walk hd hmet hmet' hsame]

theorem exists_start (root : Path) (htargets : s.targets.length ≤ 1) :
    ∃ start, starts s root = [start] := by
  rw [starts]
  cases hs : s.targets with
  | nil => exact ⟨root, rfl⟩
  | cons target targets =>
    rw [hs, List.length_cons] at htargets
    obtain rfl : targets = [] := List.eq_nil_of_length_eq_zero (by omega)
    exact ⟨root.join target, rfl⟩

/-- From a single start, further patterns leave out what they match. -/
theorem files_append (hd : d.WellFormed) (htargets : s.targets.length ≤ 1)
    (before after : Settings.Excludes) :
    files d s (before ++ after) root
      = (files d s before root).filter fun f => !after.matchPath (f.path.relativeTo root) := by
  obtain ⟨start, hstart⟩ := exists_start root htargets
  rw [files_eq, files_eq, hstart, List.flatMap_singleton, List.flatMap_singleton, pathsFrom_append,
    ← arrange_filter (oneSpelling_pathsFrom hd), List.filter_map]
  rfl

/-- **From a single start, exclude patterns take away what they match**, and nothing else. -/
theorem find_withExclude_append (hd : d.WellFormed) (htargets : s.targets.length ≤ 1)
    {first behind : List String} (hread : Settings.readExcludes (first ++ behind) = .ok excludes) :
    ∃ after, Settings.readExcludes behind = .ok after ∧
      (find d (withExclude s (first ++ behind)) root).files
        = (find d (withExclude s first) root).files.map
            (List.filter fun f => !after.matchPath (f.path.relativeTo root)) := by
  obtain ⟨before, after, hfirst, hbehind, rfl⟩ := Settings.readExcludes_append.1 hread
  refine ⟨after, hbehind, ?_⟩
  -- without a directory at the root both searches fail in the same way
  cases hroot : d.hasDirectory root with
  | false =>
    obtain ⟨e, herror⟩ := find_files_of_not_directory hroot
    rw [herror, herror]
    rfl
  | true =>
    have hall : (withExclude s (first ++ behind)).excludes = .ok (before ++ after) := hread
    have hfew : (withExclude s first).excludes = .ok before := hfirst
    rw [find_files hroot hall, find_files hroot hfew]
    exact congrArg Except.ok (files_append (s := s) hd htargets before after)

/-! ## All settings

The laws are gathered, with the two that say which way a change can only go, and with the
failures. -/

/-- **Settings add up**, as far as spellings make no difference. What is found with two lists of
targets together is what is found with the one or with the other, if neither is empty; so neither
the order of targets nor their repetition matters. What is found with two lists of extensions
together is what is found with the one or with the other. From a single start, what is found with
exclude patterns and further ones is what is found with the former and the latter do not match.
More targets or extensions never lose a file, and more exclude patterns never gain one, from however
many starts. Whether discovery fails, and why, depends on neither targets nor extensions. -/
theorem settings_add_up (hd : d.WellFormed) (s : Settings) (root : Path) :
    (∀ targets targets' p, targets ≠ [] → targets' ≠ [] →
      (Finds d (withTargets s (targets ++ targets')) root p ↔
        Finds d (withTargets s targets) root p ∨ Finds d (withTargets s targets') root p)) ∧
    (∀ targets targets' p, (∀ target, target ∈ targets ↔ target ∈ targets') →
      (Finds d (withTargets s targets) root p ↔ Finds d (withTargets s targets') root p)) ∧
    (∀ extensions extensions' p,
      Finds d (withExtensions s (extensions ++ extensions')) root p ↔
        Finds d (withExtensions s extensions) root p ∨
          Finds d (withExtensions s extensions') root p) ∧
    (s.targets.length ≤ 1 → ∀ first behind excludes,
      Settings.readExcludes (first ++ behind) = .ok excludes →
      ∃ after, Settings.readExcludes behind = .ok after ∧
        (find d (withExclude s (first ++ behind)) root).files
          = (find d (withExclude s first) root).files.map
              (List.filter fun f => !after.matchPath (f.path.relativeTo root))) ∧
    (∀ targets targets' p, targets ≠ [] → targets ⊆ targets' →
      Finds d (withTargets s targets) root p → Finds d (withTargets s targets') root p) ∧
    (∀ extensions extensions' p, extensions ⊆ extensions' →
      Finds d (withExtensions s extensions) root p →
        Finds d (withExtensions s extensions') root p) ∧
    (∀ exclude exclude' p, exclude ⊆ exclude' →
      Finds d (withExclude s exclude') root p → Finds d (withExclude s exclude) root p) ∧
    ∀ targets extensions e,
      (find d (withExtensions (withTargets s targets) extensions) root).files = .error e ↔
        (find d s root).files = .error e := by
  refine ⟨fun _ _ _ => finds_withTargets_append, fun _ _ _ => finds_withTargets_congr,
    fun extensions extensions' _ => finds_withExtensions_append extensions extensions',
    fun htargets _ _ _ => find_withExclude_append hd htargets,
    fun _ _ _ => finds_withTargets_mono, fun _ _ _ => finds_withExtensions_mono,
    fun _ _ _ => finds_withExclude_anti, fun targets extensions e => ?_⟩
  have hexcludes : (withExtensions (withTargets s targets) extensions).excludes = s.excludes := rfl
  exact find_error_congr hexcludes e

/-- A pattern takes away a generated file, and a target that leads nowhere takes nothing away. -/
theorem settings_add_up_generated :
    let name := Text.Utf8.ofString
    let tree := ((Node.directory .nil).put [name "src", name "a.ts"] (.file [])).put
      [name "src", name "gen", name "b.ts"] (.file [])
    let d : Disk := ⟨tree, []⟩
    let s := { Settings.default with exclude := [] }
    let root := Path.ofString "."
    let plain := Path.ofString "./src/a.ts"
    let generated := Path.ofString "./src/gen/b.ts"
    d.WellFormed ∧
      (find d (withExclude s ([] ++ ["**/gen/**"])) root).files = .ok [File.ofPath plain] ∧
      Finds d (withTargets s ([Path.ofString "gone"] ++ [Path.ofString "src"])) root generated := by
  intro name tree d s root plain generated
  have hd : d.WellFormed := ⟨by decide +kernel, _, rfl⟩
  have hroot : d.hasDirectory root = true := by decide +kernel
  have hexcludes : s.excludes = .ok [] := rfl
  have hpaths : (starts s root).flatMap (pathsFrom d s [] root) = [plain, generated] := by
    decide +kernel
  have hbefore : plain.Before generated := ⟨by decide +kernel, by decide +kernel⟩
  -- what is found on this disk is computed up to the sorting, and the two paths are in order
  -- already
  have hfound : (find d s root).files = .ok ([plain, generated].map File.ofPath) :=
    find_files_of_before hroot hexcludes hpaths (List.pairwise_pair.2 hbefore)
  have hleft : ((Settings.readExcludes ["**/gen/**"]).toOption.any fun after =>
      decide (([plain, generated].map File.ofPath).filter
        (fun f => !Settings.Excludes.matchPath after (f.path.relativeTo root))
          = [File.ofPath plain])) = true := by decide +kernel
  have hsettings : withExclude s [] = s ∧ withTargets s [Path.ofString "src"] = s ∧
      s.targets.length ≤ 1 := ⟨rfl, rfl, Nat.le_refl 1⟩
  clear_value d s root plain generated
  obtain ⟨hnone, hsrc, htargets⟩ := hsettings
  obtain ⟨excludes, hoption, hleft⟩ := (Option.any_eq_true _ _).1 hleft
  have hread := Settings.readExcludes_of_toOption hoption
  obtain ⟨happend, -, -, hexclude, -⟩ := settings_add_up hd s root
  refine ⟨hd, ?_, ?_⟩
  · obtain ⟨after, hafter, hless⟩ := hexclude htargets [] ["**/gen/**"] excludes hread
    obtain rfl := Except.ok.inj (hread.symm.trans hafter)
    rw [hless, hnone, hfound]
    exact congrArg Except.ok (of_decide_eq_true hleft)
  · refine (happend _ _ _ (List.cons_ne_nil _ _) (List.cons_ne_nil _ _)).2 (.inr ?_)
    rw [hsrc]
    exact ⟨_, hfound, File.ofPath generated, by simp, rfl⟩

end Unimported.Discovery
