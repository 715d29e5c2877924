/-
What is at a path, and at a path joined to it.

What is at a path of a well-formed disk is a well-formed file or directory, and no link. Under a
plain directory, whatever path leads to it, a joined path leads where the names in it lead within
that directory; only the length of the whole path can keep it from doing so.
-/
import Unimported.Proofs.Disk.Follow

set_option autoImplicit false

namespace Unimported.Disk

variable {d : Disk} {p q : Path} {names : List Name}

/-! ## Where a path leads

Following a path ends at a position that can be reached from the root, and a longer path
goes on from there. So what is at a path can be found out from the position alone. -/

/-- Where the following of a path starts. -/
def start? (d : Disk) (p : Path) : Option Position :=
  if p.isAbsolute then some d.top else d.top.descend? d.cwd

/-- A path that can lead somewhere: neither empty nor too long, and without a null byte. -/
def Admissible (p : Path) : Prop := 0 ∉ p.bytes ∧ p.bytes ≠ [] ∧ p.bytes.length ≤ pathLimit

theorem resolve_of_admissible (h : Admissible p) :
    d.resolve p = match d.start? p with
      | some here => followFrom d.top linkLimit here p.segments
      | none => .error .notADirectory := by
  obtain ⟨hnull, hempty, hlength⟩ := h
  rw [resolve, if_neg (by simpa using hnull), if_neg (by simpa using hempty),
    if_neg (Nat.not_lt.2 hlength), start?]
  by_cases habsolute : p.isAbsolute = true
  · rw [if_pos habsolute, if_pos habsolute]
  · cases d.top.descend? d.cwd with
    | some here => rw [if_neg habsolute, if_neg habsolute]
    | none => rw [if_neg habsolute, if_neg habsolute]

theorem admissible_of_resolve {place : Place} (h : d.resolve p = .ok place) : Admissible p := by
  rw [resolve] at h
  by_cases hnull : p.bytes.contains 0 = true
  · rw [if_pos hnull] at h
    cases h
  · by_cases hempty : p.bytes.isEmpty = true
    · rw [if_neg hnull, if_pos hempty] at h
      cases h
    · by_cases hlong : pathLimit < p.bytes.length
      · rw [if_neg hnull, if_neg hempty, if_pos hlong] at h
        cases h
      · exact ⟨by simpa using hnull, by simpa using hempty, Nat.not_lt.1 hlong⟩

theorem node_of_resolve {node : Node} (h : d.resolve p = .ok (.taken names))
    (hat : d.root.at? names = some node) : d.node p = .ok node := by
  simp only [Disk.node, location, h, bind, Except.bind, pure, Except.pure, hat]

theorem resolve_of_node {node : Node} (h : d.node p = .ok node) :
    ∃ names, d.resolve p = .ok (.taken names) ∧ d.root.at? names = some node := by
  cases hresolve : d.resolve p with
  | error trouble => simp [Disk.node, location, hresolve, bind, Except.bind] at h
  | ok place =>
    cases place with
    | free directory name =>
      simp [Disk.node, location, hresolve, bind, Except.bind, throw, throwThe,
        MonadExceptOf.throw] at h
    | taken names =>
      cases hat : d.root.at? names with
      | none =>
        simp [Disk.node, location, hresolve, hat, bind, Except.bind, pure, Except.pure, throw,
          throwThe, MonadExceptOf.throw] at h
      | some found =>
        rw [node_of_resolve hresolve hat] at h
        exact ⟨names, rfl, hat.trans (congrArg some (Except.ok.inj h))⟩

/-- There are names below the root only if it is no link. -/
theorem top_not_isLink {entries : Entries} (h : d.node p = .ok (.directory entries)) :
    ¬ d.top.IsLink := by
  rintro ⟨target, htarget⟩
  obtain ⟨names, -, hat⟩ := resolve_of_node h
  obtain ⟨root, cwd⟩ := d
  obtain rfl : root = .link target := htarget
  cases names with
  | nil => cases hat
  | cons name names => cases hat

/-- **The place that a path leads to can be reached**, and what follows is followed from there. -/
theorem resolve_reached (htop : ¬ d.top.IsLink) (h : d.resolve p = .ok (.taken names)) :
    ∃ here links there, d.start? p = some here ∧ there.Reached d.root ∧ there.names = names ∧
      ∀ more, followFrom d.top linkLimit here (p.segments ++ more)
        = followFrom d.top links there more := by
  have htop := Position.Reached.top htop
  rw [resolve_of_admissible (admissible_of_resolve h)] at h
  cases hstart : d.start? p with
  | none => simp [hstart] at h
  | some here =>
    simp only [hstart] at h
    have hhere : here.Reached d.root := by
      rw [start?] at hstart
      split at hstart
      · exact Option.some.inj hstart ▸ htop
      · refine htop.of_descend? hstart fun ⟨target, htarget⟩ => ?_
        -- a path has a segment, and no segment leads on from a link
        obtain ⟨first, rest, hsegments⟩ := List.exists_cons_of_ne_nil (splitSlash_ne_nil p.bytes)
        rw [Path.segments, hsegments] at h
        have hstep : here.step first = .stuck .notADirectory :=
          Position.step_of_not_directory fun entries hnode => by
            rw [htarget] at hnode
            cases hnode
        rw [linkLimit, followFrom, followSegments_cons, hstep] at h
        cases h
    obtain ⟨links, there, hthere, hnames, hmore⟩ := followFrom_append htop hhere h
    exact ⟨here, links, there, rfl, hthere, hnames, hmore⟩

theorem WellFormed.top_not_isLink (hd : d.WellFormed) : ¬ d.top.IsLink := by
  rintro ⟨target, htarget⟩
  obtain ⟨entries, hroot⟩ := hd.directory
  exact Node.noConfusion (htarget.symm.trans hroot)

/-- **What is at a path** of a well-formed disk is well-formed, and no link. -/
theorem WellFormed.of_node {node : Node} (hd : d.WellFormed) (h : d.node p = .ok node) :
    node.WellFormed ∧ ∀ target, node ≠ .link target := by
  obtain ⟨names, hresolve, hat⟩ := resolve_of_node h
  obtain ⟨here, links, there, -, hthere, rfl, -⟩ := resolve_reached hd.top_not_isLink hresolve
  obtain rfl : there.node = node := Option.some.inj (hthere.at?.symm.trans hat)
  exact ⟨(hd.tree.of_at? hat).2, fun target hlink => hthere.not_isLink ⟨target, hlink⟩⟩

/-- What a joined path leads to is found from where the first path leads. -/
theorem resolve_join (htop : ¬ d.top.IsLink) (h : d.resolve p = .ok (.taken names)) :
    ∃ links there, there.Reached d.root ∧ there.names = names ∧
      ∀ q : Path, q.isAbsolute = false → Admissible (p.join q) →
        d.resolve (p.join q) = followFrom d.top links there q.segments := by
  obtain ⟨here, links, there, hstart, hthere, hnames, hmore⟩ := resolve_reached htop h
  refine ⟨links, there, hthere, hnames, fun q hq hadmissible => ?_⟩
  have hp := (admissible_of_resolve h).2.1
  obtain ⟨first, front, hsegments, hjoin⟩ := Path.segments_join hp hq
  rw [start?, ← Path.isAbsolute_join hp hq, ← start?] at hstart
  rw [resolve_of_admissible hadmissible, hstart, ← hmore]
  change followFrom d.top linkLimit here (p.join q).segments = _
  rw [hjoin]
  rcases hsegments with hsegments | hsegments
  · rw [hsegments]
    rfl
  · -- the empty segment at the end of the first path does not count
    have hempty : followFrom d.top linkLimit here (first :: front ++ [] :: splitSlash q.bytes)
        = followFrom d.top linkLimit here (first :: front ++ splitSlash q.bytes) :=
      followFrom_trivial d.top rfl (splitSlash_ne_nil q.bytes) linkLimit here _
    rw [hsegments, Path.segments, ← List.cons_append, ← hempty]
    simp

/-- **Below a plain directory** a path leads where the names in it lead. -/
theorem node_join {entries : Entries} (h : d.node p = .ok (.directory entries))
    (hwf : entries.WellFormed) (hplain : entries.Plain)
    (hq : q.isAbsolute = false)
    (hnames : q.segments.filterMap Component.ofSegment? = names.map .name) :
    (∀ node, (Node.directory entries).at? names = some node → Reaches q.segments node →
      (p.join q).bytes.length ≤ pathLimit → d.node (p.join q) = .ok node) ∧
    ((Node.directory entries).at? names = none → ∀ node, d.node (p.join q) ≠ .ok node) := by
  have htop := top_not_isLink h
  obtain ⟨found, hresolve, hat⟩ := resolve_of_node h
  obtain ⟨links, there, hthere, rfl, hjoin⟩ := resolve_join htop hresolve
  obtain ⟨hnull, hp, -⟩ := admissible_of_resolve hresolve
  have hnode : there.node = .directory entries := Option.some.inj (hthere.at?.symm.trans hat)
  rw [← hnode]
  have hwf : there.node.WellFormed := hnode ▸ hwf
  have hplain : there.node.Plain := hnode ▸ hplain
  -- below there are no links, so it does not matter how many more may be followed
  have hfollow : ∃ onLink, followFrom d.top links = followSegments onLink := by
    cases links with
    | zero => exact ⟨_, rfl⟩
    | succ links => exact ⟨_, rfl⟩
  obtain ⟨onLink, hfollow⟩ := hfollow
  constructor
  · intro node hsub hreaches hlength
    have hnull' : 0 ∉ q.bytes :=
      Path.not_mem_of_names (by decide) (by decide) hnames fun n hn =>
        ((hwf.of_at? hsub).1 n hn).2.1
    have hadmissible : Admissible (p.join q) :=
      ⟨Path.not_mem_join (by decide) hnull hnull', Path.join_bytes_ne_nil hp hq, hlength⟩
    have hjoined : d.resolve (p.join q) = .ok (.taken (there.names ++ names)) := by
      rw [hjoin q hq hadmissible, hfollow]
      exact followSegments_names hplain hwf hnames hsub hreaches
    exact node_of_resolve hjoined (by rw [Node.at?_append, hthere.at?, Option.bind_some, hsub])
  · intro hsub node hnode
    obtain ⟨found, hresolve, -⟩ := resolve_of_node hnode
    rw [hjoin q hq (admissible_of_resolve hresolve), hfollow] at hresolve
    exact followSegments_names_none hplain hwf hnames hsub found hresolve

end Unimported.Disk
