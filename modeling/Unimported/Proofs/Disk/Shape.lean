/-
Disks of the same shape.

Two disks are of the same shape if they differ in nothing but the contents of their files. No step
along a path looks into a file, so each path leads to the same place on both of them.
-/
import Unimported.Proofs.Disk.Write

set_option autoImplicit false

namespace Unimported

theorem Node.Alike.symm {node node' : Option Node} (h : Alike node node') : Alike node' node := by
  cases h with
  | nothing => exact .nothing
  | file => exact .file
  | link => exact .link
  | directory => exact .directory

namespace Disk

/-- The disks differ in nothing but what is in their files. -/
structure SameShape (d d' : Disk) : Prop where
  cwd : d.cwd = d'.cwd
  alike : ∀ names, Node.Alike (d.root.at? names) (d'.root.at? names)

theorem SameShape.symm {d d' : Disk} (h : SameShape d d') : SameShape d' d :=
  ⟨h.cwd.symm, fun names => (h.alike names).symm⟩

/-! ## Steps

Both disks are walked at once. The two positions have the same names, and stand at nodes of
the same kind; a step looks at nothing but the kind of the node and of its entry, so it
keeps this up. -/

section Steps

variable {root root' : Node} {here here' : Position} {segment : Name}

/-- Twins stand at nodes of the same kind. -/
theorem Twins.alike_node (halike : ∀ names, Node.Alike (root.at? names) (root'.at? names))
    (h : Twins root root' here here') : Node.Alike (some here.node) (some here'.node) := by
  have hat := halike here.names
  rwa [h.reached.at?, ← h.names, h.reached'.at?] at hat

/-- A step to a position has a twin, and any other step is the same one. -/
theorem Twins.step_of_alike (halike : ∀ names, Node.Alike (root.at? names) (root'.at? names))
    (h : Twins root root' here here') (segment : Name) :
    match here.step segment with
    | .go there => ∃ there', here'.step segment = .go there' ∧ Twins root root' there there'
    | step => here'.step segment = step := by
  have hnode := h.alike_node halike
  have hentry := halike (here.names ++ [segment])
  cases hhere : here.node with
  | link target => exact absurd ⟨target, hhere⟩ h.reached.not_isLink
  | file bytes =>
    rw [hhere] at hnode
    -- no step leads on from a file, and the twin stands at a file as well
    have hfile : ∀ entries, here'.node ≠ .directory entries := by
      intro entries hentries
      rw [hentries] at hnode
      cases hnode
    rw [Position.step_of_not_directory (by simp [hhere])]
    exact Position.step_of_not_directory hfile
  | directory entries =>
    obtain ⟨entries', hhere'⟩ : ∃ entries', here'.node = .directory entries' := by
      rw [hhere] at hnode
      generalize here'.node = node at hnode
      cases hnode
      exact ⟨_, rfl⟩
    rw [h.reached.get? hhere, ← h.names, h.reached'.get? hhere'] at hentry
    unfold Position.step
    rw [hhere, hhere']
    dsimp only
    by_cases htrivial : Path.isTrivialSegment segment = true
    · simp only [if_pos htrivial]
      exact ⟨here', rfl, h⟩
    · by_cases hdots : segment = [dot, dot]
      · simp only [if_neg htrivial, if_pos hdots]
        exact ⟨here'.up, rfl, h.up⟩
      · by_cases hlong : nameLimit < segment.length
        · simp only [if_neg htrivial, if_neg hdots, if_pos hlong]
        · simp only [if_neg htrivial, if_neg hdots, if_neg hlong]
          -- the entries have the same kind, or both are missing
          generalize hchild : entries.get? segment = child at hentry
          generalize hchild' : entries'.get? segment = child' at hentry
          cases hentry with
          | nothing => rfl
          | link => rfl
          | file => exact ⟨_, rfl, h.enter hhere hhere' hchild hchild' (by simp) (by simp)⟩
          | directory => exact ⟨_, rfl, h.enter hhere hhere' hchild hchild' (by simp) (by simp)⟩

/-- Segments lead to the same place. The induction is on the segments; `hlink` says the same of what
is behind a link. -/
theorem followSegments_alike (halike : ∀ names, Node.Alike (root.at? names) (root'.at? names))
    {onLink onLink' : Position → Path → List Name → Except Trouble Place}
    (hlink : ∀ {there there' : Position} {target : Path} {rest : List Name} {place : Place},
      Twins root root' there there' → onLink there target rest = .ok place →
      onLink' there' target rest = .ok place)
    {segments : List Name} {place : Place} (h : Twins root root' here here')
    (hplace : followSegments onLink here segments = .ok place) :
    followSegments onLink' here' segments = .ok place := by
  induction segments generalizing here here' with
  | nil =>
    rw [followSegments] at hplace ⊢
    rwa [h.names]
  | cons segment rest ih =>
    have hstep := h.step_of_alike halike segment
    rw [followSegments_cons] at hplace ⊢
    cases hcase : here.step segment with
    | go there =>
      rw [hcase] at hstep hplace
      obtain ⟨there', hstep', hthere⟩ := hstep
      rw [hstep']
      exact ih hthere hplace
    -- a link is the same one on both disks, and leads on in the same way
    | byLink target =>
      rw [hcase] at hstep hplace
      rw [hstep]
      exact hlink h hplace
    | missing =>
      rw [hcase] at hstep hplace
      rw [hstep, h.names]
      exact hplace
    | stuck trouble =>
      rw [hcase] at hplace
      cases hplace

/-- The same with links, as many as may be on the way. -/
theorem followFrom_alike (halike : ∀ names, Node.Alike (root.at? names) (root'.at? names))
    {top top' : Position} (htop : Twins root root' top top') {links : Nat} {segments : List Name}
    {place : Place} (h : Twins root root' here here')
    (hplace : followFrom top links here segments = .ok place) :
    followFrom top' links here' segments = .ok place := by
  induction links generalizing here here' segments place with
  | zero =>
    refine followSegments_alike halike ?_ h hplace
    intro there there' target rest place _ hlink
    cases hlink
  | succ links ih =>
    refine followSegments_alike halike ?_ h hplace
    intro there there' target rest place hthere hlink
    apply ih ?_ hlink
    split
    · exact htop
    · exact hthere

/-- To descend by names is to go where they lead. -/
theorem Position.descend?_node (here : Position) (names : List Name) :
    (here.descend? names).map Position.node = here.node.at? names := by
  induction names generalizing here with
  | nil => rw [descend?, Node.at?_nil, Option.map_some]
  | cons name names ih =>
    rw [descend?]
    cases here.node with
    | file bytes => rfl
    | link target => rfl
    | directory entries =>
      dsimp only
      rw [Node.at?_cons, Option.map_bind]
      exact Option.bind_congr fun child _ => ih (here.enter name entries child)

theorem Position.names_of_descend? {there : Position} {names : List Name}
    (h : here.descend? names = some there) : there.names = here.names ++ names := by
  induction names generalizing here with
  | nil =>
    rw [descend?] at h
    rw [← Option.some.inj h, List.append_nil]
  | cons name names ih =>
    rw [descend?] at h
    cases hnode : here.node with
    | file bytes => simp [hnode] at h
    | link target => simp [hnode] at h
    | directory entries =>
      simp only [hnode, Option.bind_eq_some_iff] at h
      obtain ⟨child, -, h⟩ := h
      rw [ih h, names_enter, List.append_assoc, List.singleton_append]

end Steps

/-! ## Whole paths

A path starts at the top or at the current directory, and both have twins on the other disk.
From there the steps agree. -/

section Paths

variable {d d' : Disk} {p : Path}

/-- Directories at the same names, which are twins. -/
theorem SameShape.twins (h : SameShape d d') (htop : d.top.Reached d.root) :
    Twins d.root d'.root d.top d'.top := by
  refine ⟨rfl, htop, .top ?_⟩
  rintro ⟨target, htarget⟩
  have hroot := h.alike []
  rw [Node.at?_nil, Node.at?_nil, show d'.root = .link target from htarget] at hroot
  generalize hlink : d.root = node at hroot
  cases hroot
  exact htop.not_isLink ⟨target, hlink⟩

/-- Where the following of a path starts on one disk, it starts at a twin on the other. -/
theorem SameShape.twins_start (h : SameShape d d') {here : Position} {entries : Entries}
    (hstart : d.start? p = some here) (hnode : here.node = .directory entries) :
    Twins d.root d'.root d.top d'.top ∧
      ∃ here', d'.start? p = some here' ∧ Twins d.root d'.root here here' := by
  obtain ⟨htop, hhere⟩ := start?_reached hstart hnode
  have htwins := h.twins htop
  refine ⟨htwins, ?_⟩
  unfold start? at hstart ⊢
  by_cases habsolute : p.isAbsolute = true
  · rw [if_pos habsolute] at hstart ⊢
    exact ⟨d'.top, rfl, Option.some.inj hstart ▸ htwins⟩
  · rw [if_neg habsolute] at hstart ⊢
    have hnames : here.names = d.cwd := Position.names_of_descend? hstart
    -- there is a directory at these names on both disks
    have hcwd := h.alike d.cwd
    rw [← hnames, hhere.at?, hnode] at hcwd
    generalize hat : d'.root.at? here.names = node at hcwd
    cases hcwd with
    | @directory _ entries' =>
      rw [hnames, h.cwd, show d'.root = d'.top.node from rfl, ← Position.descend?_node,
        Option.map_eq_some_iff] at hat
      obtain ⟨here', hstart', hnode'⟩ := hat
      refine ⟨here', hstart', ?_, hhere, htwins.reached'.of_descend? hstart' ?_⟩
      · rw [hnames, h.cwd]
        exact Position.names_of_descend? hstart'
      · rintro ⟨target, htarget⟩
        cases htarget.symm.trans hnode'

/-- **A path leads to the same place** on disks of the same shape. -/
theorem SameShape.resolve (h : SameShape d d') {place : Place} (hplace : d.resolve p = .ok place) :
    d'.resolve p = .ok place := by
  obtain ⟨here, entries, hstart, hnode, hfollow⟩ := start?_of_resolve hplace
  obtain ⟨htop, here', hstart', hhere⟩ := h.twins_start hstart hnode
  rw [resolve_of_admissible (admissible_of_resolve hplace), hstart']
  exact followFrom_alike h.alike htop hhere hfollow

theorem hasFile_iff : d.hasFile p = true ↔ ∃ bytes, d.node p = .ok (.file bytes) := by
  unfold hasFile
  cases d.node p with
  | error trouble => simp
  | ok node => cases node <;> simp

/-- **There are files at the same paths** on disks of the same shape. -/
theorem SameShape.hasFile_eq (h : SameShape d d') (p : Path) : d.hasFile p = d'.hasFile p := by
  have hfile : ∀ {d d' : Disk}, SameShape d d' → d.hasFile p = true → d'.hasFile p = true := by
    intro d d' h hfile
    obtain ⟨bytes, hnode⟩ := hasFile_iff.1 hfile
    obtain ⟨names, hplace, hat⟩ := resolve_of_node hnode
    have halike := h.alike names
    rw [hat] at halike
    generalize hat' : d'.root.at? names = node at halike
    cases halike with
    | @file _ bytes' => exact hasFile_iff.2 ⟨bytes', node_of_resolve (h.resolve hplace) hat'⟩
  rw [Bool.eq_iff_iff]
  exact ⟨hfile h, hfile h.symm⟩

end Paths

end Disk

end Unimported
