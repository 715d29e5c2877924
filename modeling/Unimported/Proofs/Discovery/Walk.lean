/-
What a walk meets, by names.

Where no ignore files count, a walk goes by the names in the tree alone: it meets the files to which
names lead that are not hidden, by way of directories that can be opened. Each file that it meets
has the path of the start, joined with the names that lead to it.
-/
import Unimported.Discovery.Find
import Unimported.Proofs.Disk.Resolve
import Unimported.Proofs.Path.Order

set_option autoImplicit false

namespace Unimported.Discovery

open Source (File)

/-! ## Names of files

A walk without ignore files is first told by names alone. `namesFrom` is the recursion of
the walk, and `Leads` says of a single list of names that it is in it: a file is at the end,
no name is hidden, and each directory on the way opens. The two agree, one direction by the
recursion over the tree, the other by induction on the names. -/

mutual

/-- The names that lead to the files from a node on, in the order of a walk. `front` are the names
that lead to the node, and `opens` tells the directories that can be opened by their names. -/
def namesFrom (opens : List Name → Bool) (front : List Name) : Node → List (List Name)
  | .file _ => [front]
  | .link _ => []
  | .directory entries => if opens front then namesBelow opens front entries else []

/-- The names that lead to the files below a directory. -/
def namesBelow (opens : List Name → Bool) (front : List Name) : Entries → List (List Name)
  | .nil => []
  | .cons name node rest =>
    (if isHidden name then [] else namesFrom opens (front ++ [name]) node)
      ++ namesBelow opens front rest

end

/-- Names that lead from a node to a file, none of them hidden, by way of directories that can be
opened. -/
structure Leads (opens : List Name → Bool) (front : List Name) (node : Node)
    (names : List Name) : Prop where
  toFile : ∃ bytes, node.at? names = some (.file bytes)
  visible : ∀ n ∈ names, isHidden n = false
  opened : ∀ k < names.length, opens (front ++ names.take k) = true

section Names

variable {opens : List Name → Bool} {front names : List Name}

theorem leads_nil {node : Node} : Leads opens front node [] ↔ ∃ bytes, node = .file bytes := by
  refine ⟨fun h => ?_, fun ⟨bytes, h⟩ => ⟨⟨bytes, by rw [h, Node.at?_nil]⟩, by simp, by simp⟩⟩
  obtain ⟨bytes, hat⟩ := h.toFile
  rw [Node.at?_nil] at hat
  exact ⟨bytes, Option.some.inj hat⟩

/-- Names lead on from directories alone, one name after the other. -/
theorem leads_cons {name : Name} {node : Node} :
    Leads opens front node (name :: names) ↔
      ∃ entries child, node = .directory entries ∧ opens front = true ∧
        entries.get? name = some child ∧ isHidden name = false ∧
        Leads opens (front ++ [name]) child names := by
  constructor
  · rintro ⟨⟨bytes, hat⟩, hvisible, hopened⟩
    obtain ⟨entries, child, hnode, hget, hat⟩ := Node.at?_cons_eq_some.1 hat
    obtain ⟨hname, hvisible⟩ := List.forall_mem_cons.1 hvisible
    have hfront := hopened 0 (Nat.zero_lt_succ _)
    rw [List.take_zero, List.append_nil] at hfront
    refine ⟨entries, child, hnode, hfront, hget, hname, ⟨bytes, hat⟩, hvisible, fun k hk => ?_⟩
    have hk := hopened (k + 1) (Nat.succ_lt_succ hk)
    rwa [List.take_succ_cons, List.append_cons] at hk
  · rintro ⟨entries, child, hnode, hfront, hget, hname, ⟨bytes, hat⟩, hvisible, hopened⟩
    refine ⟨⟨bytes, Node.at?_cons_eq_some.2 ⟨entries, child, hnode, hget, hat⟩⟩,
      -- the first directory on the way is the node itself
      List.forall_mem_cons.2 ⟨hname, hvisible⟩, fun k hk => ?_⟩
    cases k with
    | zero => rwa [List.take_zero, List.append_nil]
    | succ k =>
      rw [List.take_succ_cons, List.append_cons]
      exact hopened k (Nat.lt_of_succ_lt_succ hk)

mutual

/-- **A walk meets nothing else** than files to which names lead. -/
theorem leads_of_mem_namesFrom : ∀ {node : Node} {front : List Name}, node.WellFormed →
    names ∈ namesFrom opens front node → ∃ behind, names = front ++ behind ∧
      Leads opens front node behind
  | .file bytes, front, _, h => by
    obtain rfl := List.mem_singleton.1 h
    exact ⟨[], (List.append_nil _).symm, leads_nil.2 ⟨bytes, rfl⟩⟩
  | .link target, front, _, h => by cases h
  | .directory entries, front, hwf, h => by
    rw [namesFrom] at h
    by_cases hopens : opens front = true
    · rw [if_pos hopens] at h
      obtain ⟨name, child, behind, rfl, hget, hname, hleads⟩ := leads_of_mem_namesBelow hwf h
      exact ⟨name :: behind, List.append_cons _ _ _ ▸ rfl,
        leads_cons.2 ⟨entries, child, rfl, hopens, hget, hname, hleads⟩⟩
    · rw [if_neg hopens] at h
      cases h

/-- Below a directory a walk meets nothing else than files to which names lead by way of entries of
the directory. -/
theorem leads_of_mem_namesBelow : ∀ {entries : Entries} {front : List Name}, entries.WellFormed →
    names ∈ namesBelow opens front entries → ∃ name child behind,
      names = front ++ [name] ++ behind ∧ entries.get? name = some child ∧
        isHidden name = false ∧ Leads opens (front ++ [name]) child behind
  | .nil, front, _, h => by cases h
  | .cons name node rest, front, hwf, h => by
    obtain ⟨-, hfresh, hnode, hrest⟩ := hwf
    rw [namesBelow, List.mem_append] at h
    rcases h with h | h
    · by_cases hname : isHidden name = true
      · rw [if_pos hname] at h
        cases h
      · rw [if_neg hname] at h
        obtain ⟨behind, rfl, hleads⟩ := leads_of_mem_namesFrom hnode h
        exact ⟨name, node, behind, rfl, by rw [Entries.get?_cons, if_pos rfl],
          Bool.eq_false_iff.2 hname, hleads⟩
    · obtain ⟨found, child, behind, rfl, hget, hname, hleads⟩ := leads_of_mem_namesBelow hrest h
      -- the entries behind the first one have other names
      have hne : name ≠ found := by
        rintro rfl
        rw [hfresh] at hget
        cases hget
      exact ⟨found, child, behind, rfl, by rw [Entries.get?_cons, if_neg hne, hget], hname, hleads⟩

end

/-- What a walk meets from an entry on it meets from the directory on. The recursion is on the
entries. -/
theorem mem_namesBelow {name : Name} {child : Node} : ∀ {entries : Entries},
    entries.get? name = some child → isHidden name = false →
    names ∈ namesFrom opens (front ++ [name]) child → names ∈ namesBelow opens front entries
  | .cons n node rest, hget, hname, h => by
    rw [Entries.get?_cons] at hget
    rw [namesBelow, List.mem_append]
    by_cases hn : n = name
    · rw [if_pos hn] at hget
      obtain rfl := Option.some.inj hget
      rw [← hn] at hname h
      exact .inl (by rwa [hname])
    · rw [if_neg hn] at hget
      exact .inr (mem_namesBelow hget hname h)

/-- **A walk misses nothing**: it meets every file to which names lead. -/
theorem mem_namesFrom_of_leads {node : Node} (h : Leads opens front node names) :
    front ++ names ∈ namesFrom opens front node := by
  -- down the tree, one name after the other
  induction names generalizing front node with
  | nil =>
    obtain ⟨bytes, rfl⟩ := leads_nil.1 h
    rw [List.append_nil]
    exact List.mem_singleton_self front
  | cons name names ih =>
    obtain ⟨entries, child, rfl, hopens, hget, hname, hleads⟩ := leads_cons.1 h
    rw [namesFrom, if_pos hopens, List.append_cons]
    exact mem_namesBelow hget hname (ih hleads)

/-- **The names in a walk** are those that lead to files. -/
theorem mem_namesFrom {node : Node} (hwf : node.WellFormed) :
    names ∈ namesFrom opens [] node ↔ Leads opens [] node names := by
  refine ⟨fun h => ?_, mem_namesFrom_of_leads⟩
  obtain ⟨behind, rfl, hleads⟩ := leads_of_mem_namesFrom hwf h
  exact hleads

mutual

/-- A walk depends on which directories of the tree can be opened. -/
theorem namesFrom_congr {opens' : List Name → Bool} : ∀ {node : Node} {front : List Name},
    node.WellFormed → (∀ names entries, node.at? names = some (.directory entries) →
      opens (front ++ names) = opens' (front ++ names)) →
    namesFrom opens front node = namesFrom opens' front node
  | .file _, _, _, _ => rfl
  | .link _, _, _, _ => rfl
  | .directory entries, front, hwf, h => by
    have hfront := h [] entries (Node.at?_nil _)
    rw [List.append_nil] at hfront
    have hbelow : namesBelow opens front entries = namesBelow opens' front entries :=
      namesBelow_congr hwf fun name child names sub hget hat => by
        rw [List.append_assoc, List.singleton_append]
        exact h (name :: names) sub
          (Node.at?_cons_eq_some.2 ⟨entries, child, rfl, hget, hat⟩)
    rw [namesFrom, namesFrom, hfront, hbelow]

/-- The same below a directory. -/
theorem namesBelow_congr {opens' : List Name → Bool} : ∀ {entries : Entries} {front : List Name},
    entries.WellFormed → (∀ name child names sub, entries.get? name = some child →
      child.at? names = some (.directory sub) →
      opens (front ++ [name] ++ names) = opens' (front ++ [name] ++ names)) →
    namesBelow opens front entries = namesBelow opens' front entries
  | .nil, _, _, _ => rfl
  | .cons name node rest, front, hwf, h => by
    obtain ⟨-, hfresh, hnode, hrest⟩ := hwf
    -- what is below the first entry and what is below the others are looked at apart, under
    -- their own names
    have hfirst : namesFrom opens (front ++ [name]) node
        = namesFrom opens' (front ++ [name]) node :=
      namesFrom_congr hnode fun names sub hat =>
        h name node names sub (by rw [Entries.get?_cons, if_pos rfl]) hat
    have hothers : namesBelow opens front rest = namesBelow opens' front rest :=
      namesBelow_congr hrest fun other child names sub hget hat => by
        have hne : name ≠ other := by
          rintro rfl
          rw [hfresh] at hget
          cases hget
        exact h other child names sub (by rw [Entries.get?_cons, if_neg hne, hget]) hat
    rw [namesBelow, namesBelow, hfirst, hothers]

end

end Names

/-! ## Visits

The walk itself meets paths, and its levels may pass over more than what is hidden. The
first half is about walks without ignore files, which are the names above behind the start.
The second holds of any walk, and says only which form the paths have. -/

/-- The path of the file, if a file was met. -/
def Visit.path? : Visit → Option Path
  | .file p => some p
  | .obstacle _ => none

/-- Whether the directory to which names lead from a path can be opened. -/
def canOpen (start : Path) (names : List Name) : Bool :=
  decide ((start.extend names).bytes.length ≤ Disk.pathLimit)

section Visits

variable {enter : Ignore.Levels → Path → Ignore.Levels} {levels : Ignore.Levels} {start p : Path}

mutual

/-- Without ignore files a walk is one of names. `henter` and `hlevels` say that there are none. -/
theorem paths_visitsOf (henter : ∀ p, enter levels p = levels)
    (hlevels : ∀ name p node, passesOver levels name p node = isHidden name) :
    ∀ (node : Node) (front : List Name),
      (visitsOf enter levels (start.extend front) node).filterMap Visit.path?
        = (namesFrom (canOpen start) front node).map start.extend
  | .file _, front => rfl
  | .link _, front => rfl
  | .directory entries, front => by
    rw [visitsOf, namesFrom, canOpen, henter]
    by_cases hlength : (start.extend front).bytes.length ≤ Disk.pathLimit
    · rw [if_neg (Nat.not_lt.2 hlength), if_pos (decide_eq_true hlength)]
      exact paths_visitsBelow henter hlevels entries front
    · rw [if_pos (Nat.lt_of_not_le hlength), if_neg (by simpa using hlength)]
      rfl

/-- The same below a directory. -/
theorem paths_visitsBelow (henter : ∀ p, enter levels p = levels)
    (hlevels : ∀ name p node, passesOver levels name p node = isHidden name) :
    ∀ (entries : Entries) (front : List Name),
      (visitsBelow enter levels (start.extend front) entries).filterMap Visit.path?
        = (namesBelow (canOpen start) front entries).map start.extend
  | .nil, front => rfl
  | .cons name node rest, front => by
    rw [visitsBelow, namesBelow, hlevels, List.filterMap_append, List.map_append,
      paths_visitsBelow henter hlevels rest front, ← Path.extend_concat]
    refine congrArg (· ++ _) ?_
    by_cases hname : isHidden name = true
    · rw [if_pos hname, if_pos hname]
      rfl
    · rw [if_neg hname, if_neg hname]
      exact paths_visitsOf henter hlevels node (front ++ [name])

end

mutual

/-- Whatever the levels, what a walk meets from a node on has a path of names. -/
theorem names_of_mem_visitsOf : ∀ {node : Node} {front : List Name} {levels : Ignore.Levels},
    node.WellFormed → .file p ∈ visitsOf enter levels (start.extend front) node →
    ∃ names, p = start.extend (front ++ names) ∧ ∀ n ∈ names, Path.IsName n
  | .file _, front, _, _, h => by
    rw [visitsOf] at h
    obtain rfl := Visit.file.inj (List.mem_singleton.1 h)
    exact ⟨[], by rw [List.append_nil], by simp⟩
  | .link _, _, _, _, h => by cases h
  | .directory entries, front, levels, hwf, h => by
    rw [visitsOf] at h
    by_cases hlength : Disk.pathLimit < (start.extend front).bytes.length
    · rw [if_pos hlength] at h
      cases List.mem_singleton.1 h
    · rw [if_neg hlength] at h
      exact names_of_mem_visitsBelow hwf h

/-- The same below a directory. -/
theorem names_of_mem_visitsBelow : ∀ {entries : Entries} {front : List Name}
    {levels : Ignore.Levels},
    entries.WellFormed → .file p ∈ visitsBelow enter levels (start.extend front) entries →
    ∃ names, p = start.extend (front ++ names) ∧ ∀ n ∈ names, Path.IsName n
  | .nil, _, _, _, h => by cases h
  | .cons name node rest, front, levels, hwf, h => by
    obtain ⟨hname, -, hnode, hrest⟩ := hwf
    rw [visitsBelow, List.mem_append, ← Path.extend_concat] at h
    rcases h with h | h
    -- the file is met below this entry or below one of the others
    · by_cases hpasses : passesOver levels name (start.extend (front ++ [name])) node = true
      · rw [if_pos hpasses] at h
        cases h
      · rw [if_neg hpasses] at h
        obtain ⟨names, hp, hnames⟩ := names_of_mem_visitsOf hnode h
        refine ⟨name :: names, by rw [hp, List.append_assoc]; rfl, ?_⟩
        exact List.forall_mem_cons.2 ⟨hname.1, hnames⟩
    · exact names_of_mem_visitsBelow hrest h

end

end Visits

/-- **A walk without ignore files** from a file or a directory. -/
theorem paths_walk {d : Disk} {start : Path} {node : Node}
    (hstart : start.components ≠ standardInput.components) (hnode : d.node start = .ok node)
    (hlink : ∀ target, node ≠ .link target) :
    (walk d false start).filterMap Visit.path?
      = (namesFrom (canOpen start) [] node).map start.extend := by
  have hsame : ¬ start.same standardInput = true := fun h => hstart (Path.same_iff.1 h)
  rw [walk, if_neg hsame, hnode]
  cases node with
  | file bytes => rfl
  | link target => exact absurd rfl (hlink target)
  | directory entries =>
    have hvisits : (visitsOf (enter d false) (startLevels d false start) (start.extend [])
          (.directory entries)).filterMap Visit.path?
        = (namesFrom (canOpen start) [] (.directory entries)).map start.extend :=
      paths_visitsOf (fun _ => rfl) (fun _ _ _ => rfl) _ _
    rw [Path.extend_nil] at hvisits
    exact hvisits

/-- Of the files that a walk meets, the start is the only one if it is no directory. Ignore files
without use are not among them. -/
theorem file_mem_walk_iff {d : Disk} {respect : Bool} {start p : Path} :
    .file p ∈ walk d respect start ↔
      start.components ≠ standardInput.components ∧ ∃ node, d.node start = .ok node ∧
        if isDirectory node then
          .file p ∈ visitsOf (enter d respect) (startLevels d respect start) start node
        else p = start := by
  by_cases hstart : start.components = standardInput.components
  · rw [walk, if_pos (Path.same_iff.2 hstart)]
    exact iff_of_false (by simp) fun h => h.1 hstart
  · rw [walk, if_neg (fun h => hstart (Path.same_iff.1 h))]
    -- what is at the start decides: nothing, a file or a link by itself, or a directory to go
    -- through
    cases hnode : d.node start with
    | error trouble => simp
    | ok node =>
      cases node with
      | file bytes => simp [hstart, isDirectory]
      | link target => simp [hstart, isDirectory]
      | directory entries =>
        have hdefect : ∀ defects, defectVisit? defects ≠ some (.file p) := by
          intro defects
          rw [defectVisit?]
          split <;> simp
        simp [hstart, isDirectory, hdefect]

/-- **What a walk meets**, whether ignore files count or not, has a path of names behind the
start. -/
theorem names_of_mem_walk {d : Disk} {respect : Bool} {start p : Path} (hd : d.WellFormed)
    (h : .file p ∈ walk d respect start) :
    start.bytes ≠ [] ∧ ∃ names, p = start.extend names ∧ ∀ n ∈ names, Path.IsName n := by
  obtain ⟨-, node, hnode, h⟩ := file_mem_walk_iff.1 h
  obtain ⟨_, hresolve, -⟩ := Disk.resolve_of_node hnode
  refine ⟨(Disk.admissible_of_resolve hresolve).2.1, ?_⟩
  by_cases hdirectory : isDirectory node = true
  · rw [if_pos hdirectory, ← Path.extend_nil start] at h
    exact names_of_mem_visitsOf (hd.of_node hnode).1 h
  · rw [if_neg hdirectory] at h
    exact ⟨[], h, by simp⟩

/-- A walk meets no file in two spellings. -/
theorem eq_of_mem_walk {d : Disk} {respect : Bool} {start p q : Path} (hd : d.WellFormed)
    (hp : .file p ∈ walk d respect start) (hq : .file q ∈ walk d respect start)
    (h : p.components = q.components) : p = q := by
  obtain ⟨hstart, names, rfl, hnames⟩ := names_of_mem_walk hd hp
  obtain ⟨-, names', rfl, hnames'⟩ := names_of_mem_walk hd hq
  rw [Path.components_extend hstart hnames, Path.components_extend hstart hnames',
    List.append_cancel_left_eq] at h
  rw [List.map_injective_iff.2 (fun _ _ => Component.name.inj) h]

end Unimported.Discovery
