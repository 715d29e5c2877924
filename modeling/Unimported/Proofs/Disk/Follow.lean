/-
Following paths, step by step.

Whatever links lead there, the place that a path is followed to is one to which names lead from the
root, and it is never a link. The steps behind it do not depend on how it was reached: if the front
of a path leads somewhere, the whole path leads where the rest of it leads from there. Where there
are no links, the rest leads where its names do.
-/
import Unimported.Proofs.Disk.Tree

set_option autoImplicit false

namespace Unimported.Disk

/-! ## Positions

A position is a node with the trail that leads back to the root. `Reached` are the positions
that a path can come to, so it leaves out links, and the names of such a position lead to
its node without any. -/

/-- Whether there is a link at the end of the trail. -/
def Position.IsLink (here : Position) : Prop := ∃ target, here.node = .link target

/-- The positions that can be reached in a tree: the root, and what is no link among the entries
of a directory that can be reached. -/
inductive Position.Reached (root : Node) : Position → Prop
  | top (h : ¬ IsLink ⟨root, []⟩) : Reached root ⟨root, []⟩
  | enter {here : Position} {name : Name} {entries : Entries} {node : Node}
      (hhere : Reached root here) (hdirectory : here.node = .directory entries)
      (hget : entries.get? name = some node) (hlink : ¬ IsLink (here.enter name entries node)) :
      Reached root (here.enter name entries node)

section Reached

variable {root : Node} {here there : Position}

theorem Position.names_enter (here : Position) (name : Name) (entries : Entries) (node : Node) :
    (here.enter name entries node).names = here.names ++ [name] := by
  simp [Position.names, Position.enter]

/-- The names of a position lead to it. -/
theorem Position.Reached.at? (h : here.Reached root) : root.at? here.names = some here.node := by
  induction h with
  | top h => exact Node.at?_nil root
  | @enter here name entries node hhere hdirectory hget hlink ih =>
    rw [Position.names_enter, Node.at?_append, ih, hdirectory, Option.bind_some, Node.at?_cons,
      hget, Option.bind_some, Node.at?_nil]
    rfl

theorem Position.Reached.not_isLink (h : here.Reached root) : ¬ here.IsLink := by
  cases h with
  | top h => exact h
  | enter _ _ _ hlink => exact hlink

theorem Position.Reached.up (h : here.Reached root) : here.up.Reached root := by
  cases h with
  | top h => exact .top h
  | @enter here name entries node hhere hdirectory hget hlink =>
    have hup : (here.enter name entries node).up = here := by
      obtain ⟨_, trail⟩ := here
      obtain rfl : _ = Node.directory entries := hdirectory
      rfl
    rwa [hup]

/-- By way of directories one gets to positions that can be reached, unless to a link. -/
theorem Position.Reached.of_descend? {names : List Name} (h : here.Reached root)
    (hdescend : here.descend? names = some there) (hthere : ¬ there.IsLink) :
    there.Reached root := by
  induction names generalizing here with
  | nil =>
    rw [Position.descend?] at hdescend
    exact Option.some.inj hdescend ▸ h
  | cons name names ih =>
    rw [Position.descend?] at hdescend
    cases hnode : here.node with
    | directory entries =>
      simp only [hnode, Option.bind_eq_some_iff] at hdescend
      obtain ⟨node, hget, hdescend⟩ := hdescend
      refine ih (.enter h hnode hget fun hlink => hthere ?_) hdescend
      -- from a link names lead no farther
      cases names with
      | nil => exact Option.some.inj hdescend ▸ hlink
      | cons next names =>
        obtain ⟨target, hlink⟩ := hlink
        rw [Position.descend?, hlink] at hdescend
        cases hdescend
    | file bytes => simp [hnode] at hdescend
    | link target => simp [hnode] at hdescend

end Reached

/-! ## One step

The function that follows a path looks at the node, at the segment and at the entry, and
then goes on. `Position.step` takes these questions out of it: each proof about following
has four cases, one for what a step can do. -/

/-- What one segment does at a position. -/
inductive Step where
  /-- It leads to a position. -/
  | go (there : Position)
  /-- It names a link. -/
  | byLink (target : Path)
  /-- It names nothing. -/
  | missing
  | stuck (trouble : Trouble)

/-- What a segment does at a position. -/
def Position.step (here : Position) (segment : Name) : Step :=
  match here.node with
  | .directory entries =>
    if Path.isTrivialSegment segment then .go here
    else if segment = [dot, dot] then .go here.up
    else if nameLimit < segment.length then .stuck .nameTooLong
    else
      match entries.get? segment with
      | none => .missing
      | some (.link target) => .byLink target
      | some node => .go (here.enter segment entries node)
  | _ => .stuck .notADirectory

section Steps

variable {onLink : Position → Path → List Name → Except Trouble Place} {root : Node}
  {here there : Position} {segment : Name}

/-- **Paths are followed in steps.** -/
theorem followSegments_cons (rest : List Name) :
    followSegments onLink here (segment :: rest)
      = match here.step segment with
        | .go there => followSegments onLink there rest
        | .byLink target => onLink here target rest
        | .missing => if rest.isEmpty then .ok (.free here.names segment) else .error .notFound
        | .stuck trouble => .error trouble := by
  rw [followSegments, Position.step]
  cases here.node with
  | directory entries =>
    dsimp only
    split
    · rfl
    · split
      · rfl
      · split
        · rfl
        · cases entries.get? segment with
          | none => rfl
          | some node => cases node <;> rfl
  | file bytes => rfl
  | link target => rfl

/-- From what is no directory there is no step. -/
theorem Position.step_of_not_directory (h : ∀ entries, here.node ≠ .directory entries) :
    here.step segment = .stuck .notADirectory := by
  rw [Position.step]
  split
  · exact absurd ‹_› (h _)
  · rfl

/-- A step leads from a position that can be reached to another one. -/
theorem Position.Reached.step (h : here.Reached root) (hstep : here.step segment = .go there) :
    there.Reached root := by
  rw [Position.step] at hstep
  cases hnode : here.node with
  | file bytes => simp [hnode] at hstep
  | link target => simp [hnode] at hstep
  | directory entries =>
    simp only [hnode] at hstep
    split at hstep
    · -- a trivial segment
      exact Step.go.inj hstep ▸ h
    · split at hstep
      · -- two dots
        exact Step.go.inj hstep ▸ h.up
      · split at hstep
        · -- a name that is too long
          cases hstep
        · -- an entry that is no link
          cases hget : entries.get? segment with
          | none => simp [hget] at hstep
          | some node =>
            have hlink : ¬ (here.enter segment entries node).IsLink := by
              rintro ⟨target, htarget⟩
              obtain rfl : node = .link target := htarget
              simp [hget] at hstep
            rw [hget] at hstep
            have hthere : here.enter segment entries node = there := by
              cases node with
              | link target => cases hstep
              | file bytes => exact Step.go.inj hstep
              | directory entries => exact Step.go.inj hstep
            exact hthere ▸ .enter h hnode hget hlink

/-! ## Along a path

Behind a link another path is followed from the same directory or from the top, and then the
rest. So what is said of segments has `hlink` for a hypothesis, which is what the induction
on the number of links provides. -/

/-- If the front of a list of segments leads somewhere, so does a list with that front, from there
on. The induction is on the front; `hlink` says the same of what is behind a link. -/
theorem followSegments_append {top : Position} {names front : List Name}
    (hlink : ∀ {here : Position} {target : Path} {rest : List Name}, here.Reached root →
      onLink here target rest = .ok (.taken names) →
      ∃ links there, there.Reached root ∧ there.names = names ∧
        ∀ more, onLink here target (rest ++ more) = followFrom top links there more)
    (hfollow : ∃ links, followFrom top links = followSegments onLink)
    (hhere : here.Reached root)
    (h : followSegments onLink here front = .ok (.taken names)) :
    ∃ links there, there.Reached root ∧ there.names = names ∧
      ∀ more, followSegments onLink here (front ++ more) = followFrom top links there more := by
  induction front generalizing here with
  | nil =>
    rw [followSegments] at h
    obtain rfl := Place.taken.inj (Except.ok.inj h)
    obtain ⟨links, hfollow⟩ := hfollow
    exact ⟨links, here, hhere, rfl, fun more => by rw [hfollow, List.nil_append]⟩
  -- each segment is a step, and only the steps that go on or meet a link can lead to a place
  | cons segment rest ih =>
    simp only [List.cons_append, followSegments_cons] at h ⊢
    cases hstep : here.step segment with
    | go there =>
      rw [hstep] at h
      exact ih (hhere.step hstep) h
    | byLink target =>
      rw [hstep] at h
      exact hlink hhere h
    -- a name that is free, or in the way, is no place where something is
    | missing => cases rest <;> simp [hstep] at h
    | stuck trouble => simp [hstep] at h

/-- **Following goes on from where the front of a path leads.** The induction is on the number of
links that are left. -/
theorem followFrom_append {top : Position} (htop : top.Reached root) {names : List Name} :
    ∀ {links : Nat} {here : Position} {front : List Name}, here.Reached root →
      followFrom top links here front = .ok (.taken names) →
      ∃ links' there, there.Reached root ∧ there.names = names ∧
        ∀ more, followFrom top links here (front ++ more) = followFrom top links' there more := by
  intro links
  induction links with
  | zero =>
    intro here front hhere h
    exact followSegments_append (by simp) ⟨0, rfl⟩ hhere h
  | succ links ih =>
    intro here front hhere h
    -- a link is replaced by its target, which stands in front of all that is left
    refine followSegments_append (fun {here target rest} hhere h => ?_) ⟨links + 1, rfl⟩ hhere h
    have hnext : (if target.isAbsolute then top else here).Reached root := by
      split
      · exact htop
      · exact hhere
    obtain ⟨links', there, hthere, hnames, hmore⟩ := ih hnext h
    exact ⟨links', there, hthere, hnames, fun more => by rw [← List.append_assoc, hmore]⟩

/-- A trivial segment says nothing unless it is the last one, where it asks for a directory. -/
theorem followSegments_trivial {trivial : Name} (htrivial : Path.isTrivialSegment trivial = true)
    {more : List Name} (hmore : more ≠ [])
    (hlink : ∀ (here : Position) (target : Path) (rest : List Name),
      onLink here target (rest ++ trivial :: more) = onLink here target (rest ++ more))
    (here : Position) (front : List Name) :
    followSegments onLink here (front ++ trivial :: more)
      = followSegments onLink here (front ++ more) := by
  induction front generalizing here with
  | nil =>
    obtain ⟨next, more, rfl⟩ := List.exists_cons_of_ne_nil hmore
    rw [List.nil_append, List.nil_append, followSegments_cons]
    -- at a directory the segment is passed over; elsewhere the next one fails in the same way
    cases hnode : here.node with
    | directory entries => simp only [Position.step, hnode, if_pos htrivial]
    | file bytes => rw [followSegments_cons]; simp only [Position.step, hnode]
    | link target => rw [followSegments_cons]; simp only [Position.step, hnode]
  | cons segment rest ih =>
    simp only [List.cons_append, followSegments_cons]
    cases here.step segment with
    | go there => exact ih there
    | byLink target => exact hlink here target rest
    | missing => simp [hmore]
    | stuck trouble => rfl

theorem followFrom_trivial (top : Position) {trivial : Name}
    (htrivial : Path.isTrivialSegment trivial = true) {more : List Name} (hmore : more ≠ [])
    (links : Nat) (here : Position) (front : List Name) :
    followFrom top links here (front ++ trivial :: more)
      = followFrom top links here (front ++ more) := by
  induction links generalizing here front with
  | zero => exact followSegments_trivial htrivial hmore (fun _ _ _ => rfl) here front
  | succ links ih =>
    refine followSegments_trivial htrivial hmore (fun here target rest => ?_) here front
    rw [← List.append_assoc, ← List.append_assoc]
    exact ih _ _

/-! ## Where there are no links

In a plain tree the names among the segments are all that counts. A segment that says
nothing needs a directory to stand at, which is no question unless it is the last: `Reaches`
says when it may be. -/

section Plain

variable {entries : Entries} {node child : Node} {rest segments names : List Name}

theorem followSegments_skip (hnode : here.node = .directory entries)
    (h : Path.isTrivialSegment segment = true) :
    followSegments onLink here (segment :: rest) = followSegments onLink here rest := by
  have hstep : here.step segment = .go here := by
    rw [Position.step, hnode]
    exact if_pos h
  rw [followSegments_cons, hstep]

theorem followSegments_entry (hnode : here.node = .directory entries) (hwf : entries.WellFormed)
    (hplain : entries.Plain) (hget : entries.get? segment = some child) :
    followSegments onLink here (segment :: rest)
      = followSegments onLink (here.enter segment entries child) rest := by
  obtain ⟨⟨hname, -, hlength⟩, -⟩ := Entries.WellFormed.of_get? hwf hget
  have hlink := (Entries.Plain.of_get? hplain hget).ne_link
  have hstep : here.step segment = .go (here.enter segment entries child) := by
    rw [Position.step, hnode]
    simp only [hname.not_isTrivial, Bool.false_eq_true, if_false, if_neg hname.2.2.1,
      if_neg (Nat.not_lt.2 hlength), hget]
  rw [followSegments_cons, hstep]

theorem followSegments_missing (hnode : here.node = .directory entries) {n : Name}
    (hsegment : Component.ofSegment? segment = some (.name n)) (hget : entries.get? n = none)
    (found : List Name) : followSegments onLink here (segment :: rest) ≠ .ok (.taken found) := by
  obtain ⟨rfl, htrivial, hup⟩ := Path.ofSegment?_eq_name hsegment
  rw [followSegments_cons]
  simp only [Position.step, hnode, if_neg htrivial, if_neg hup, hget]
  by_cases hlong : nameLimit < segment.length
  · simp [hlong]
  · cases rest <;> simp [hlong]

/-- Segments of which the last one is a name can lead to a file; any can lead to a directory. -/
def Reaches (segments : List Name) (node : Node) : Prop :=
  (∃ entries, node = .directory entries) ∨
    ∀ last ∈ segments.getLast?, Path.isTrivialSegment last = false

theorem Reaches.tail (h : Reaches (segment :: rest) node) : Reaches rest node := by
  refine h.imp_right fun hlast last hmem => hlast last ?_
  cases rest with
  | nil => cases hmem
  | cons next rest => rwa [List.getLast?_cons_cons]

/-- A trivial segment is passed over at a directory alone: if no name is left behind it, it is a
directory that is reached. -/
theorem Reaches.exists_directory (h : Reaches (segment :: rest) node)
    (htrivial : Path.isTrivialSegment segment = true)
    (hnames : rest.filterMap Component.ofSegment? = names.map .name)
    (hat : child.at? names = some node) : ∃ entries, child = .directory entries := by
  cases names with
  | cons name names =>
    obtain ⟨entries, -, hchild, -⟩ := Node.at?_cons_eq_some.1 hat
    exact ⟨entries, hchild⟩
  | nil =>
    rw [Node.at?_nil] at hat
    refine Option.some.inj hat ▸ h.resolve_right fun hlast => ?_
    -- all segments are trivial, the last one too
    have hall : ∀ s ∈ segment :: rest, Path.isTrivialSegment s = true := by
      refine List.forall_mem_cons.2 ⟨htrivial, fun s hs => ?_⟩
      exact Path.ofSegment?_eq_none_iff.1 (List.filterMap_eq_nil_iff.1 hnames s hs)
    have hne := List.cons_ne_nil segment rest
    have hfalse := hlast _ (List.getLast?_eq_some_getLast hne)
    rw [hall _ (List.getLast_mem hne)] at hfalse
    cases hfalse

/-- **In a plain tree segments lead where the names among them do.** -/
theorem followSegments_names (hplain : here.node.Plain) (hwf : here.node.WellFormed)
    (hnames : segments.filterMap Component.ofSegment? = names.map .name)
    (hat : here.node.at? names = some node) (hreaches : Reaches segments node) :
    followSegments onLink here segments = .ok (.taken (here.names ++ names)) := by
  induction segments generalizing here names with
  | nil =>
    obtain rfl : names = [] := by simpa using hnames.symm
    rw [followSegments, List.append_nil]
  | cons segment rest ih =>
    cases hsegment : Component.ofSegment? segment with
    | none =>
      -- such a segment needs a directory, but does not lead away from it
      have htrivial := Path.ofSegment?_eq_none_iff.1 hsegment
      rw [List.filterMap_cons_none hsegment] at hnames
      obtain ⟨entries, hnode⟩ := hreaches.exists_directory htrivial hnames hat
      rw [followSegments_skip hnode htrivial]
      exact ih hplain hwf hnames hat hreaches.tail
    | some component =>
      rw [List.filterMap_cons_some hsegment] at hnames
      cases names with
      | nil => cases hnames
      | cons name names =>
        obtain ⟨rfl, htail⟩ := List.cons.inj hnames
        obtain ⟨rfl, -, -⟩ := Path.ofSegment?_eq_name hsegment
        obtain ⟨entries, child, hnode, hget, hat⟩ := Node.at?_cons_eq_some.1 hat
        rw [hnode] at hplain hwf
        have hnext : followSegments onLink (here.enter segment entries child) rest
            = .ok (.taken ((here.enter segment entries child).names ++ names)) :=
          ih (Entries.Plain.of_get? hplain hget) (Entries.WellFormed.of_get? hwf hget).2 htail hat
            hreaches.tail
        rw [Position.names_enter, List.append_assoc] at hnext
        rw [followSegments_entry hnode hwf hplain hget]
        exact hnext

/-- **In a plain tree segments lead to nothing** where the names among them do not. -/
theorem followSegments_names_none (hplain : here.node.Plain) (hwf : here.node.WellFormed)
    (hnames : segments.filterMap Component.ofSegment? = names.map .name)
    (hat : here.node.at? names = none) (found : List Name) :
    followSegments onLink here segments ≠ .ok (.taken found) := by
  induction segments generalizing here names with
  | nil =>
    obtain rfl : names = [] := by simpa using hnames.symm
    rw [Node.at?_nil] at hat
    cases hat
  | cons segment rest ih =>
    cases hnode : here.node with
    | file bytes => simp [followSegments_cons, Position.step, hnode]
    | link target => simp [followSegments_cons, Position.step, hnode]
    | directory entries =>
      cases hsegment : Component.ofSegment? segment with
      | none =>
        -- a segment that says nothing does not lead away from the directory
        rw [List.filterMap_cons_none hsegment] at hnames
        rw [followSegments_skip hnode (Path.ofSegment?_eq_none_iff.1 hsegment)]
        exact ih hplain hwf hnames hat
      | some component =>
        rw [List.filterMap_cons_some hsegment] at hnames
        cases names with
        | nil => cases hnames
        | cons name names =>
          obtain ⟨rfl, htail⟩ := List.cons.inj hnames
          obtain ⟨rfl, -, -⟩ := Path.ofSegment?_eq_name hsegment
          rw [hnode] at hplain hwf hat
          rw [Node.at?_cons] at hat
          cases hget : entries.get? segment with
          | none => exact followSegments_missing hnode hsegment hget found
          | some child =>
            rw [hget, Option.bind_some] at hat
            rw [followSegments_entry hnode hwf hplain hget]
            exact ih (Entries.Plain.of_get? hplain hget) (Entries.WellFormed.of_get? hwf hget).2
              htail hat

end Plain

end Steps

end Unimported.Disk
