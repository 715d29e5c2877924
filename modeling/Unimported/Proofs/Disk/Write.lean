/-
Writing files.

A file is written to where its path leads: to a file that is there, or to a name that is free in a
directory. Nothing else on the disk changes, so each path leads where it led before; only the name
that was free is taken from now on. `writable_or_unwritable` says when a file can be written, and
`readBytes_write` that the bytes that were written are read back under the same path.
-/
import Unimported.Proofs.Disk.Resolve

set_option autoImplicit false

namespace Unimported

/-! ## Putting a file into a tree

First the trees alone, without paths: `Takes` follows `Node.put` down to where the file is
put, and so is the induction of every lemma here. `Alike` is what a path can tell of a node.
Directories are alike whatever is in them, since the directories above the new file have
changed; links have to be the same link. -/

/-- A file can be put where the names lead: to a file, or to a name that is free in a directory. -/
inductive Node.Takes : Node → List Name → Prop
  | existing {bytes : List Text.Byte} : Takes (.file bytes) []
  | free {entries : Entries} {name : Name} : entries.get? name = none →
      Takes (.directory entries) [name]
  | within {entries : Entries} {name : Name} {child : Node} {names : List Name} :
      entries.get? name = some child → Takes child names →
      Takes (.directory entries) (name :: names)

/-- What is at two places is of one kind: nothing, a file, a directory, or one and the same link. -/
inductive Node.Alike : Option Node → Option Node → Prop
  | nothing : Alike none none
  | file {bytes bytes' : List Text.Byte} : Alike (some (.file bytes)) (some (.file bytes'))
  | link {target : Path} : Alike (some (.link target)) (some (.link target))
  | directory {entries entries' : Entries} :
      Alike (some (.directory entries)) (some (.directory entries'))

theorem Entries.get?_set (name n : Name) (new : Node) : ∀ entries : Entries,
    (entries.set name new).get? n = if name = n then some new else entries.get? n
  | .nil => rfl
  | .cons first node rest => by
    rw [set]
    -- The entry is replaced where it stands first, so the names are compared with the one that
    -- is set before the one that is sought.
    by_cases hfirst : first = name
    · rw [if_pos hfirst, get?_cons, get?_cons, hfirst]
      by_cases hn : name = n
      · rw [if_pos hn, if_pos hn]
      · simp only [if_neg hn]
    · rw [if_neg hfirst, get?_cons, get?_cons, get?_set name n new rest]
      by_cases hn : name = n
      · rw [if_neg (hn ▸ hfirst), if_pos hn, if_pos hn]
      · rw [if_neg hn, if_neg hn]

namespace Node

variable {root : Node} {names : List Name} {bytes : List Text.Byte}

theorem Alike.refl : ∀ node : Option Node, Alike node node
  | none => .nothing
  | some (.file _) => .file
  | some (.link _) => .link
  | some (.directory _) => .directory

theorem takes_of_file (h : root.at? names = some (.file bytes)) : root.Takes names := by
  induction names generalizing root with
  | nil =>
    rw [at?_nil] at h
    rw [Option.some.inj h]
    exact .existing
  | cons name names ih =>
    obtain ⟨entries, child, rfl, hget, hat⟩ := at?_cons_eq_some.1 h
    exact .within hget (ih hat)

theorem takes_of_free {entries : Entries} {name : Name}
    (h : root.at? names = some (.directory entries)) (hfree : entries.get? name = none) :
    root.Takes (names ++ [name]) := by
  induction names generalizing root with
  | nil =>
    rw [at?_nil] at h
    rw [Option.some.inj h]
    exact .free hfree
  | cons first names ih =>
    obtain ⟨entries, child, rfl, hget, hat⟩ := at?_cons_eq_some.1 h
    exact .within hget (ih hat)

/-- **What was put is there.** -/
theorem at?_put (h : root.Takes names) :
    (root.put names (.file bytes)).at? names = some (.file bytes) := by
  induction h with
  | existing => rfl
  | @free entries name hfree =>
    rw [put, put, at?_cons, Entries.get?_set, if_pos rfl]
    rfl
  | @within entries name child names hget _ ih =>
    -- the child is replaced below its own name, and found again under it
    rw [put, hget, at?_cons, Entries.get?_set, if_pos rfl]
    exact ih

/-- **Nothing else changes.** The induction is on the way to the file: other names part from it at
one of the directories. -/
theorem alike_put (bytes : List Text.Byte) (h : root.Takes names) {others : List Name}
    (hne : others ≠ names) :
    Alike (root.at? others) ((root.put names (.file bytes)).at? others) := by
  induction h generalizing others with
  | existing =>
    cases others with
    | nil => exact absurd rfl hne
    | cons n others => exact .nothing
  | @free entries name hfree =>
    cases others with
    | nil => exact .directory
    | cons n others =>
      rw [put, put, at?_cons, at?_cons, Entries.get?_set]
      by_cases hn : name = n
      · -- below a file there is nothing
        subst hn
        rw [hfree, if_pos rfl]
        cases others with
        | nil => exact absurd rfl hne
        | cons _ _ => exact .nothing
      · rw [if_neg hn]
        exact .refl _
  | @within entries name child names hget _ ih =>
    cases others with
    | nil => exact .directory
    | cons n others =>
      rw [put, at?_cons, at?_cons, Entries.get?_set, hget]
      by_cases hn : name = n
      · subst hn
        rw [hget, if_pos rfl]
        exact ih fun heq => hne (heq ▸ rfl)
      · rw [if_neg hn]
        exact .refl _

/-- Before it was put, there was nothing or another file. -/
theorem Takes.at? (h : root.Takes names) :
    root.at? names = none ∨ ∃ bytes, root.at? names = some (.file bytes) := by
  induction h with
  | @existing bytes => exact .inr ⟨bytes, rfl⟩
  | @free entries name hfree =>
    left
    rw [at?_cons, hfree]
    rfl
  | @within entries name child names hget _ ih =>
    rw [at?_cons, hget]
    exact ih

end Node

/-- Where a place is after something has been put where the names lead. -/
def Place.after (names : List Name) : Place → Place
  | .taken found => .taken found
  | .free directory name =>
    if directory ++ [name] = names then .taken names else .free directory name

namespace Disk

/-! ## Positions in both trees

Following a path goes from position to position. Beside the tree as it was stands the tree
with the file, and a step is taken in both at once: `Twins` are positions with the same
names, and `Twins.step` is the step lemma. The one step that differs is the one that used to
find the written name missing. -/

/-- Positions in two trees to which the same names lead. -/
structure Twins (root root' : Node) (here here' : Position) : Prop where
  names : here'.names = here.names
  reached : here.Reached root
  reached' : here'.Reached root'

theorem Position.names_up (here : Position) : here.up.names = here.names.dropLast := by
  obtain ⟨node, trail⟩ := here
  cases trail with
  | nil => rfl
  | cons last trail => simp [Position.up, Position.names]

section Put

variable {root : Node} {names : List Name} {bytes : List Text.Byte} {here here' : Position}
  {segment : Name}

theorem Twins.up {root' : Node} (h : Twins root root' here here') :
    Twins root root' here.up here'.up where
  names := by rw [Position.names_up, Position.names_up, h.names]
  reached := h.reached.up
  reached' := h.reached'.up

/-- At both positions there is the same kind of node. -/
theorem Twins.alike (htakes : root.Takes names)
    (h : Twins root (root.put names (.file bytes)) here here') :
    Node.Alike (some here.node) (some here'.node) := by
  have hat := h.reached.at?
  have hat' := h.reached'.at?
  rw [h.names] at hat'
  -- Either the position is that of the file, or nothing has changed there.
  by_cases hnames : here.names = names
  · rw [hnames] at hat hat'
    rw [Node.at?_put htakes] at hat'
    rw [← hat']
    rcases htakes.at? with hnone | ⟨old, hold⟩
    · rw [hnone] at hat
      cases hat
    · rw [← hat, hold]
      exact .file
  · rw [← hat, ← hat']
    exact Node.alike_put bytes htakes hnames

theorem Position.Reached.get? {entries : Entries} (h : here.Reached root)
    (hnode : here.node = .directory entries) (segment : Name) :
    root.at? (here.names ++ [segment]) = entries.get? segment := by
  rw [Node.at?_append, h.at?, Option.bind_some, hnode, Node.at?_cons]
  cases entries.get? segment with
  | none => rfl
  | some node => exact Node.at?_nil node

/-- What one step does in both trees. -/
inductive StepTwins (root root' : Node) (names : List Name) (here : Position) (segment : Name) :
    Step → Step → Prop
  | go {there there' : Position} : Twins root root' there there' →
      StepTwins root root' names here segment (.go there) (.go there')
  | byLink {target : Path} :
      StepTwins root root' names here segment (.byLink target) (.byLink target)
  | missing : here.names ++ [segment] ≠ names →
      StepTwins root root' names here segment .missing .missing
  /-- The name was free, and now there is the file. -/
  | put {there' : Position} : here.names ++ [segment] = names → there'.names = names →
      StepTwins root root' names here segment .missing (.go there')
  | stuck {trouble : Trouble} :
      StepTwins root root' names here segment (.stuck trouble) (.stuck trouble)

/-- Entries that stand for the same kind of node lead to twins, unless it is a link. -/
theorem Twins.enter {root' node node' : Node} {entries entries' : Entries}
    (h : Twins root root' here here') (hnode : here.node = .directory entries)
    (hnode' : here'.node = .directory entries') (hget : entries.get? segment = some node)
    (hget' : entries'.get? segment = some node') (hlink : ∀ target, node ≠ .link target)
    (hlink' : ∀ target, node' ≠ .link target) :
    Twins root root' (here.enter segment entries node) (here'.enter segment entries' node') where
  names := by rw [Position.names_enter, Position.names_enter, h.names]
  reached := .enter h.reached hnode hget fun ⟨target, htarget⟩ => hlink target htarget
  reached' := .enter h.reached' hnode' hget' fun ⟨target, htarget⟩ => hlink' target htarget

theorem Twins.directory (htakes : root.Takes names)
    (h : Twins root (root.put names (.file bytes)) here here') {entries : Entries}
    (hnode : here.node = .directory entries) :
    ∃ entries', here'.node = .directory entries' := by
  have halike := h.alike htakes
  rw [hnode] at halike
  -- a directory is like directories only
  generalize here'.node = node' at halike
  cases halike
  exact ⟨_, rfl⟩

/-- A name stands for the same kind of node in both trees, but for the name that was free. -/
theorem Twins.entry (htakes : root.Takes names)
    (h : Twins root (root.put names (.file bytes)) here here') {entries entries' : Entries}
    (hnode : here.node = .directory entries) (hnode' : here'.node = .directory entries')
    (segment : Name) :
    (here.names ++ [segment] = names ∧ entries.get? segment = none ∧
        entries'.get? segment = some (.file bytes)) ∨
      Node.Alike (entries.get? segment) (entries'.get? segment) ∧
        (entries.get? segment = none → here.names ++ [segment] ≠ names) := by
  have hget := h.reached.get? hnode segment
  have hget' := h.reached'.get? hnode' segment
  rw [h.names] at hget'
  by_cases hnames : here.names ++ [segment] = names
  · -- here is the file that was put
    rw [hnames, Node.at?_put htakes] at hget'
    rw [← hget']
    rcases htakes.at? with hnone | ⟨old, hold⟩
    · left
      rw [hnames, hnone] at hget
      exact ⟨hnames, hget.symm, rfl⟩
    · right
      rw [hnames, hold] at hget
      rw [← hget]
      exact ⟨.file, fun hnone => by cases hnone⟩
  · right
    rw [← hget, ← hget']
    exact ⟨Node.alike_put bytes htakes hnames, fun _ => hnames⟩

/-- **One step leads to the same names in both trees.** -/
theorem Twins.step (htakes : root.Takes names)
    (h : Twins root (root.put names (.file bytes)) here here') (segment : Name) :
    StepTwins root (root.put names (.file bytes)) names here segment (here.step segment)
      (here'.step segment) := by
  cases hnode : here.node with
  | link target => exact absurd ⟨target, hnode⟩ h.reached.not_isLink
  | file old =>
    -- no step leads on from a file, and the twin stands at a file as well
    have halike := h.alike htakes
    rw [hnode] at halike
    have hnode' : ∀ entries', here'.node ≠ .directory entries' := by
      intro entries' hnode'
      rw [hnode'] at halike
      cases halike
    rw [Position.step_of_not_directory (by simp [hnode]), Position.step_of_not_directory hnode']
    exact .stuck
  | directory entries =>
    obtain ⟨entries', hnode'⟩ := h.directory htakes hnode
    rw [Position.step, Position.step, hnode, hnode']
    dsimp only
    split
    · exact .go h
    · split
      · exact .go h.up
      · split
        · exact .stuck
        · -- the two directories differ in no entry but the one that is written
          rcases h.entry htakes hnode hnode' segment with ⟨hnames, hget, hget'⟩ | ⟨halike, hmissing⟩
          · rw [hget, hget']
            refine .put hnames ?_
            rw [Position.names_enter, h.names, hnames]
          · generalize hchild : entries.get? segment = child at halike hmissing
            generalize hchild' : entries'.get? segment = child' at halike
            cases halike with
            | nothing => exact .missing (hmissing rfl)
            | link => exact .byLink
            | file => exact .go (h.enter hnode hnode' hchild hchild' (by simp) (by simp))
            | directory => exact .go (h.enter hnode hnode' hchild hchild' (by simp) (by simp))

/-- Names that lead to no link lead to twins. -/
theorem Twins.descend? (htakes : root.Takes names) {way : List Name} {there : Position}
    (h : Twins root (root.put names (.file bytes)) here here')
    (hdescend : here.descend? way = some there) (hlink : ¬ there.IsLink) :
    ∃ there', here'.descend? way = some there' ∧
      Twins root (root.put names (.file bytes)) there there' := by
  -- By induction on the names, from twins to twins. A link at the end would not be the same
  -- position in both trees, so it is excluded.
  induction way generalizing here here' with
  | nil =>
    rw [Position.descend?] at hdescend
    exact ⟨here', rfl, Option.some.inj hdescend ▸ h⟩
  | cons name way ih =>
    rw [Position.descend?] at hdescend
    cases hnode : here.node with
    | link target => simp [hnode] at hdescend
    | file old => simp [hnode] at hdescend
    | directory entries =>
      obtain ⟨entries', hnode'⟩ := h.directory htakes hnode
      simp only [hnode, Option.bind_eq_some_iff] at hdescend
      obtain ⟨child, hget, hdescend⟩ := hdescend
      have hchild : ∀ target, child ≠ .link target := by
        rintro target rfl
        -- from a link names lead no farther
        cases way with
        | nil => exact hlink ⟨target, (Option.some.inj hdescend) ▸ rfl⟩
        | cons next way => cases hdescend
      obtain ⟨child', hget', hchild'⟩ : ∃ child', entries'.get? name = some child' ∧
          ∀ target, child' ≠ .link target := by
        rcases h.entry htakes hnode hnode' name with ⟨-, hnone, -⟩ | ⟨halike, -⟩
        · rw [hget] at hnone
          cases hnone
        · rw [hget] at halike
          generalize entries'.get? name = found at halike
          cases halike with
          | file => exact ⟨_, rfl, by simp⟩
          | directory => exact ⟨_, rfl, by simp⟩
          | @link target => exact absurd rfl (hchild target)
      rw [Position.descend?, hnode']
      simp only [hget', Option.bind_some]
      exact ih (h.enter hnode hnode' hget hget' hchild hchild') hdescend

/-! ## Along a path

A path is followed segment by segment, and behind a link another path is followed with one
link less. So there are two inductions: on the segments, where what is behind a link is a
hypothesis, and on the number of links, which discharges it. -/

/-- If segments lead to a place in the first tree, they lead there in the second one. The induction
is on the segments; `hlink` says the same of what is behind a link. -/
theorem followSegments_put (htakes : root.Takes names)
    {onLink onLink' : Position → Path → List Name → Except Trouble Place}
    (hlink : ∀ {there there' : Position} {target : Path} {rest : List Name} {place : Place},
      Twins root (root.put names (.file bytes)) there there' →
      onLink there target rest = .ok place → onLink' there' target rest = .ok (place.after names))
    {segments : List Name} {place : Place}
    (h : Twins root (root.put names (.file bytes)) here here')
    (hplace : followSegments onLink here segments = .ok place) :
    followSegments onLink' here' segments = .ok (place.after names) := by
  induction segments generalizing here here' with
  | nil =>
    rw [followSegments] at hplace ⊢
    rw [← Except.ok.inj hplace, h.names]
    rfl
  | cons segment rest ih =>
    rw [followSegments_cons] at hplace ⊢
    have hstep := h.step htakes segment
    generalize here.step segment = step at hstep hplace
    generalize here'.step segment = step' at hstep
    -- only a last segment may be missing, here and in the other tree
    cases hstep with
    | go hthere => exact ih hthere hplace
    | byLink => exact hlink h hplace
    | missing hnames =>
      cases rest with
      | cons next rest => cases hplace
      | nil =>
        -- another free place stays free
        rw [← Except.ok.inj hplace, Place.after, if_neg hnames, h.names]
        rfl
    | put hnames hthere =>
      cases rest with
      | cons next rest => cases hplace
      | nil =>
        rw [← Except.ok.inj hplace, Place.after, if_pos hnames]
        dsimp only
        rw [followSegments, hthere]
    | stuck => cases hplace

/-- **A path that leads to a place leads there afterwards.** The induction is on the number of links
that are left. -/
theorem followFrom_put (htakes : root.Takes names) {top top' : Position}
    (htop : Twins root (root.put names (.file bytes)) top top') {links : Nat}
    {segments : List Name} {place : Place}
    (h : Twins root (root.put names (.file bytes)) here here')
    (hplace : followFrom top links here segments = .ok place) :
    followFrom top' links here' segments = .ok (place.after names) := by
  induction links generalizing here here' segments place with
  | zero =>
    refine followSegments_put htakes ?_ h hplace
    intro there there' target rest place _ hlink
    cases hlink
  | succ links ih =>
    refine followSegments_put htakes ?_ h hplace
    intro there there' target rest place hthere hlink
    refine ih ?_ hlink
    split
    · exact htop
    · exact hthere

end Put

/-! ## Whole paths

It remains to start: at the root or at the working directory. Both must be twins, and for
that the root has to be a directory, which it is wherever a path leads somewhere. -/

variable {d : Disk} {p : Path}

/-- Where there is a path that leads somewhere, there is a directory to start from. -/
theorem start?_of_resolve {place : Place} (h : d.resolve p = .ok place) :
    ∃ here entries, d.start? p = some here ∧ here.node = .directory entries ∧
      followFrom d.top linkLimit here p.segments = .ok place := by
  rw [resolve_of_admissible (admissible_of_resolve h)] at h
  cases hstart : d.start? p with
  | none => simp [hstart] at h
  | some here =>
    simp only [hstart] at h
    refine ⟨here, ?_⟩
    -- a path has a segment, and there is no step but from a directory
    obtain ⟨first, rest, hsegments⟩ := List.exists_cons_of_ne_nil (splitSlash_ne_nil p.bytes)
    cases hnode : here.node with
    | directory entries => exact ⟨entries, rfl, rfl, h⟩
    | file bytes =>
      rw [Path.segments, hsegments, linkLimit, followFrom, followSegments_cons,
        Position.step_of_not_directory (by simp [hnode])] at h
      cases h
    | link target =>
      rw [Path.segments, hsegments, linkLimit, followFrom, followSegments_cons,
        Position.step_of_not_directory (by simp [hnode])] at h
      cases h

/-- There is a directory below the root only if the root is one. -/
theorem root_of_start? {here : Position} {entries : Entries} (hstart : d.start? p = some here)
    (hnode : here.node = .directory entries) : ∃ top, d.root = .directory top := by
  rw [start?] at hstart
  by_cases habsolute : p.isAbsolute = true
  · rw [if_pos habsolute] at hstart
    rw [← Option.some.inj hstart] at hnode
    exact ⟨entries, hnode⟩
  · rw [if_neg habsolute] at hstart
    cases hcwd : d.cwd with
    | nil =>
      rw [hcwd, Position.descend?] at hstart
      rw [← Option.some.inj hstart] at hnode
      exact ⟨entries, hnode⟩
    | cons name names =>
      rw [hcwd, Position.descend?, top] at hstart
      cases hroot : d.root with
      | directory entries => exact ⟨entries, rfl⟩
      | file bytes => simp [hroot] at hstart
      | link target => simp [hroot] at hstart

/-- At the roots of both trees there are directories. -/
theorem twins_top {names : List Name} (bytes : List Text.Byte) (htakes : d.root.Takes names)
    {entries : Entries} (hroot : d.root = .directory entries) :
    Twins d.root (d.root.put names (.file bytes)) d.top
      ⟨d.root.put names (.file bytes), []⟩ where
  names := rfl
  reached := by
    refine .top ?_
    rintro ⟨target, htarget⟩
    cases hroot.symm.trans htarget
  reached' := by
    refine .top ?_
    rintro ⟨target, htarget⟩
    -- the root is no file, so the file is put below it
    have hne : [] ≠ names := by
      rintro rfl
      rw [hroot] at htakes
      cases htakes
    have halike := Node.alike_put bytes htakes hne
    rw [Node.at?_nil, Node.at?_nil, hroot] at halike
    rw [hroot] at htarget
    dsimp only at htarget
    rw [htarget] at halike
    cases halike

/-- Where the following of a path starts there are twins. -/
theorem twins_start {names : List Name} (bytes : List Text.Byte) (htakes : d.root.Takes names)
    {here : Position} {entries : Entries} (hstart : d.start? p = some here)
    (hnode : here.node = .directory entries) :
    Twins d.root (d.root.put names (.file bytes)) d.top ⟨d.root.put names (.file bytes), []⟩ ∧
      ∃ here', start? { d with root := d.root.put names (.file bytes) } p = some here' ∧
        Twins d.root (d.root.put names (.file bytes)) here here' := by
  obtain ⟨top, hroot⟩ := root_of_start? hstart hnode
  have htop := twins_top bytes htakes hroot
  refine ⟨htop, ?_⟩
  rw [start?] at hstart ⊢
  by_cases habsolute : p.isAbsolute = true
  · rw [if_pos habsolute] at hstart ⊢
    exact ⟨_, rfl, Option.some.inj hstart ▸ htop⟩
  · rw [if_neg habsolute] at hstart ⊢
    apply htop.descend? htakes hstart
    rintro ⟨target, htarget⟩
    cases hnode.symm.trans htarget

/-- **A path that leads somewhere leads there afterwards.** -/
theorem resolve_put {names : List Name} (bytes : List Text.Byte) {place : Place}
    (htakes : d.root.Takes names) (h : d.resolve p = .ok place) :
    resolve { d with root := d.root.put names (.file bytes) } p = .ok (place.after names) := by
  obtain ⟨here, entries, hstart, hnode, hplace⟩ := start?_of_resolve h
  obtain ⟨htop, here', hstart', hhere⟩ := twins_start bytes htakes hstart hnode
  rw [resolve_of_admissible (admissible_of_resolve h), hstart']
  exact followFrom_put htakes htop hhere hplace

theorem Position.directory_of_missing {here : Position} {segment : Name}
    (h : here.step segment = .missing) :
    ∃ entries, here.node = .directory entries ∧ entries.get? segment = none := by
  rw [step] at h
  cases hnode : here.node with
  | file bytes => simp [hnode] at h
  | link target => simp [hnode] at h
  | directory entries =>
    refine ⟨entries, rfl, ?_⟩
    simp only [hnode] at h
    split at h
    · cases h
    · split at h
      · cases h
      · split at h
        · cases h
        · cases hget : entries.get? segment with
          | none => rfl
          | some node =>
            rw [hget] at h
            cases node <;> cases h

/-- A free name is free in a directory. The induction is on the segments; `hlink` says the same of
what is behind a link. -/
theorem followSegments_free {root : Node} {directory : List Name} {name : Name}
    {onLink : Position → Path → List Name → Except Trouble Place}
    (hlink : ∀ {there : Position} {target : Path} {rest : List Name}, there.Reached root →
      onLink there target rest = .ok (.free directory name) →
      ∃ entries, root.at? directory = some (.directory entries) ∧ entries.get? name = none)
    {here : Position} {segments : List Name} (h : here.Reached root)
    (hplace : followSegments onLink here segments = .ok (.free directory name)) :
    ∃ entries, root.at? directory = some (.directory entries) ∧ entries.get? name = none := by
  induction segments generalizing here with
  | nil => cases hplace
  | cons segment rest ih =>
    rw [followSegments_cons] at hplace
    -- Of the steps only a missing last segment ends at a free name; the others go on or fail.
    cases hstep : here.step segment with
    | go there =>
      rw [hstep] at hplace
      exact ih (h.step hstep) hplace
    | byLink target =>
      rw [hstep] at hplace
      exact hlink h hplace
    | missing =>
      obtain ⟨entries, hnode, hget⟩ := Position.directory_of_missing hstep
      rw [hstep] at hplace
      cases rest with
      | cons next rest => cases hplace
      | nil =>
        obtain ⟨rfl, rfl⟩ := Place.free.inj (Except.ok.inj hplace)
        exact ⟨entries, by rw [h.at?, hnode], hget⟩
    | stuck trouble =>
      rw [hstep] at hplace
      cases hplace

theorem followFrom_free {root : Node} {top : Position} (htop : top.Reached root)
    {directory : List Name} {name : Name} {links : Nat} {here : Position} {segments : List Name}
    (h : here.Reached root)
    (hplace : followFrom top links here segments = .ok (.free directory name)) :
    ∃ entries, root.at? directory = some (.directory entries) ∧ entries.get? name = none := by
  induction links generalizing here segments with
  | zero =>
    refine followSegments_free ?_ h hplace
    intro there target rest _ hlink
    cases hlink
  | succ links ih =>
    refine followSegments_free ?_ h hplace
    intro there target rest hthere hlink
    refine ih ?_ hlink
    split
    · exact htop
    · exact hthere

theorem start?_reached {here : Position} {entries : Entries} (hstart : d.start? p = some here)
    (hnode : here.node = .directory entries) : d.top.Reached d.root ∧ here.Reached d.root := by
  obtain ⟨top, hroot⟩ := root_of_start? hstart hnode
  have htop : d.top.Reached d.root := by
    refine .top ?_
    rintro ⟨target, htarget⟩
    cases hroot.symm.trans htarget
  refine ⟨htop, ?_⟩
  -- the path starts at the top, or down from it where the working directory is
  rw [start?] at hstart
  split at hstart
  · exact Option.some.inj hstart ▸ htop
  · refine htop.of_descend? hstart ?_
    rintro ⟨target, htarget⟩
    cases hnode.symm.trans htarget

/-- Where a path leads to a free name, a file can be put. -/
theorem takes_of_resolve {directory : List Name} {name : Name}
    (h : d.resolve p = .ok (.free directory name)) : d.root.Takes (directory ++ [name]) := by
  obtain ⟨here, entries, hstart, hnode, hplace⟩ := start?_of_resolve h
  obtain ⟨htop, hhere⟩ := start?_reached hstart hnode
  obtain ⟨found, hat, hfree⟩ := followFrom_free htop hhere hplace
  exact Node.takes_of_free hat hfree

/-! ## Writing

`Writable` and `Unwritable` name what the following of the path comes to, so that they
exclude each other and one of them holds. Neither mentions the bytes. -/

/-- A path under which no file can be written, and why: it leads nowhere, not even to a free name,
or to something that is no file. -/
inductive Unwritable (d : Disk) (p : Path) : Trouble → Prop
  | lost {trouble : Trouble} : d.resolve p = .error trouble → Unwritable d p trouble
  | noFile {names : List Name} : d.resolve p = .ok (.taken names) →
      (∀ bytes, d.root.at? names ≠ some (.file bytes)) → Unwritable d p .isADirectory

/-- A path under which a file can be written, and the names that lead to the file from then on. -/
inductive Writable (d : Disk) (p : Path) : List Name → Prop
  | free {directory : List Name} {name : Name} : d.resolve p = .ok (.free directory name) →
      Writable d p (directory ++ [name])
  | existing {names : List Name} {bytes : List Text.Byte} : d.resolve p = .ok (.taken names) →
      d.root.at? names = some (.file bytes) → Writable d p names

theorem Writable.takes {names : List Name} (h : Writable d p names) : d.root.Takes names := by
  cases h with
  | free hresolve => exact takes_of_resolve hresolve
  | existing _ hat => exact Node.takes_of_file hat

/-- The path leads to the file afterwards. -/
theorem Writable.leads {names : List Name} (h : Writable d p names) (bytes : List Text.Byte) :
    resolve { d with root := d.root.put names (.file bytes) } p = .ok (.taken names) := by
  cases h with
  | @free directory name hresolve =>
    have hafter := resolve_put bytes (takes_of_resolve hresolve) hresolve
    rwa [Place.after, if_pos rfl] at hafter
  | existing hresolve hat => exact resolve_put bytes (Node.takes_of_file hat) hresolve

theorem write_of_unwritable {trouble : Trouble} (h : Unwritable d p trouble)
    (bytes : List Text.Byte) : d.write p bytes = .error trouble := by
  cases h with
  | lost hresolve => simp only [write, hresolve, bind, Except.bind]
  | noFile hresolve hfile =>
    simp only [write, hresolve, bind, Except.bind]
    rfl

theorem write_of_writable {names : List Name} (h : Writable d p names) (bytes : List Text.Byte) :
    d.write p bytes = .ok { d with root := d.root.put names (.file bytes) } := by
  cases h with
  | free hresolve => simp only [write, hresolve, bind, Except.bind, pure, Except.pure]
  | existing hresolve hat => simp only [write, hresolve, hat, bind, Except.bind, pure, Except.pure]

/-- **A file can be written, or it cannot**; it does not depend on what is to be in it. -/
theorem writable_or_unwritable (d : Disk) (p : Path) :
    (∃ names, Writable d p names) ∨ ∃ trouble, Unwritable d p trouble := by
  cases hresolve : d.resolve p with
  | error trouble => exact .inr ⟨trouble, .lost hresolve⟩
  | ok place =>
    cases place with
    | free directory name => exact .inl ⟨_, .free hresolve⟩
    | taken names =>
      by_cases hfile : ∃ bytes, d.root.at? names = some (.file bytes)
      · obtain ⟨bytes, hfile⟩ := hfile
        exact .inl ⟨names, .existing hresolve hfile⟩
      · exact .inr ⟨_, .noFile hresolve fun bytes hbytes => hfile ⟨bytes, hbytes⟩⟩

/-- **What was written is read back** under the same path. -/
theorem readBytes_write {d' : Disk} {bytes : List Text.Byte} (h : d.write p bytes = .ok d') :
    d'.readBytes p = .ok bytes := by
  rcases writable_or_unwritable d p with ⟨names, hwritable⟩ | ⟨trouble, hunwritable⟩
  · rw [write_of_writable hwritable] at h
    obtain rfl := Except.ok.inj h
    -- the path leads to the names still, and there the bytes were put
    have hnode := node_of_resolve (hwritable.leads bytes) (Node.at?_put hwritable.takes)
    simp only [readBytes, hnode, bind, Except.bind, pure, Except.pure]
  · rw [write_of_unwritable hunwritable] at h
    cases h

end Disk

end Unimported
