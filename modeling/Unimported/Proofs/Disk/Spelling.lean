/-
What a path leads to does not depend on its spelling.

Empty segments and single dots say nothing on the way, and one at the end asks for a directory
only. So two spellings of a path lead to the same directory, and to the same place if neither ends
in such a segment. What can make a difference is the length of the spelling: a path that is too
long leads nowhere.
-/
import Unimported.Proofs.Disk.Resolve
import Unimported.Proofs.Path.Congruence

set_option autoImplicit false

namespace Unimported.Disk

open Unimported.Path (tellingOf)

variable {d : Disk} {p q : Path} {names : List Name}

/-! ## Segments that say nothing

A trivial segment does nothing at a directory, and anything else stops there. So it can be
dropped wherever something follows it, which needs a directory anyway, and at the end only
if there is one. -/

section Segments

variable {onLink : Position → Path → List Name → Except Trouble Place} {here : Position}
  {trivial : Name}

/-- On the way only telling segments count. The induction is on the segments, and `front` takes up
those that have been seen. -/
theorem followFrom_telling (top : Position) (links : Nat) (here : Position) {more : List Name}
    (hmore : more ≠ []) (front segments : List Name) :
    followFrom top links here (front ++ (segments ++ more))
      = followFrom top links here (front ++ (tellingOf segments ++ more)) := by
  induction segments generalizing front with
  | nil => rfl
  | cons s segments ih =>
    cases htrivial : Path.isTrivialSegment s with
    | true =>
      rw [Path.tellingOf_cons_of_trivial htrivial, ← ih, List.cons_append]
      exact followFrom_trivial top htrivial (List.append_ne_nil_of_right_ne_nil _ hmore) _ _ front
    | false =>
      have hnext := ih (front ++ [s])
      rw [List.append_assoc, List.append_assoc] at hnext
      rw [Path.tellingOf_cons_of_not_trivial htrivial]
      exact hnext

/-- A place that is reached with a trivial segment at the end is reached without it. `hlink` says
the same of what is behind a link. -/
theorem followSegments_drop (htrivial : Path.isTrivialSegment trivial = true)
    (hlink : ∀ {here : Position} {target : Path} {rest : List Name},
      onLink here target (rest ++ [trivial]) = .ok (.taken names) →
      onLink here target rest = .ok (.taken names))
    {front : List Name} (h : followSegments onLink here (front ++ [trivial]) = .ok (.taken names)) :
    followSegments onLink here front = .ok (.taken names) := by
  induction front generalizing here with
  | nil =>
    rw [List.nil_append, followSegments_cons] at h
    -- only at a directory can the last segment be read at all
    cases hnode : here.node with
    | directory entries => simpa only [Position.step, hnode, if_pos htrivial] using h
    | file bytes => simp [Position.step, hnode] at h
    | link target => simp [Position.step, hnode] at h
  | cons s front ih =>
    rw [List.cons_append, followSegments_cons] at h
    rw [followSegments_cons]
    cases hstep : here.step s with
    | go there =>
      rw [hstep] at h
      exact ih h
    | byLink target =>
      rw [hstep] at h
      exact hlink h
    | missing => simp [hstep] at h
    | stuck trouble => simp [hstep] at h

theorem followFrom_drop {top : Position} (htrivial : Path.isTrivialSegment trivial = true)
    {links : Nat} {front : List Name}
    (h : followFrom top links here (front ++ [trivial]) = .ok (.taken names)) :
    followFrom top links here front = .ok (.taken names) := by
  induction links generalizing here front with
  | zero => exact followSegments_drop htrivial (fun h => by cases h) h
  | succ links ih =>
    refine followSegments_drop htrivial (fun hrest => ?_) h
    rw [← List.append_assoc] at hrest
    exact ih hrest

end Segments

/-! ## Spellings of a path

Two spellings have the same telling segments. If both end in one, they are followed alike.
If they lead to a directory, a slash can be put behind both, and after that they are
followed alike in any case. -/

/-- A path that is short enough to be followed. -/
def Fits (p : Path) : Prop := p.bytes.length ≤ pathLimit

instance (p : Path) : Decidable (Fits p) := inferInstanceAs (Decidable (_ ≤ _))

/-- Segments lead where their telling leads, if the last one says something. -/
theorem followFrom_tellingOf
    (hp : ∀ s ∈ p.segments.getLast?, Path.isTrivialSegment s = false) (here : Position) :
    followFrom d.top linkLimit here p.segments
      = followFrom d.top linkLimit here (tellingOf p.segments) := by
  obtain ⟨front, last, hsegments⟩ :=
    (List.eq_nil_or_concat' p.segments).resolve_left (splitSlash_ne_nil p.bytes)
  have hlast : Path.isTrivialSegment last = false := hp last (by simp [hsegments])
  have htelling : tellingOf p.segments = tellingOf front ++ [last] := by
    rw [hsegments, Path.tellingOf_append, Path.tellingOf_cons_of_not_trivial hlast]
    rfl
  rw [htelling, hsegments]
  exact followFrom_telling d.top linkLimit here (List.cons_ne_nil last []) [] front

section Congruence

variable (h : p.components = q.components)

include h

theorem admissible_congr (hfits : Fits p ↔ Fits q) : Admissible p ↔ Admissible q :=
  and_congr (not_congr (Path.mem_bytes_congr h (by decide) (by decide)))
    (and_congr (not_congr (Path.bytes_eq_nil_congr h)) hfits)

theorem start?_congr : d.start? p = d.start? q := by
  rw [start?, start?, Path.isAbsolute_congr h]

/-- **Two spellings of a path lead to the same place** if each ends in a segment that says
something, and if both are short enough or neither is. -/
theorem resolve_congr (hfits : Fits p ↔ Fits q)
    (hp : ∀ s ∈ p.segments.getLast?, Path.isTrivialSegment s = false)
    (hq : ∀ s ∈ q.segments.getLast?, Path.isTrivialSegment s = false) :
    d.resolve p = d.resolve q := by
  have hnull : p.bytes.contains 0 = q.bytes.contains 0 := by
    rw [Bool.eq_iff_iff, List.contains_iff_mem, List.contains_iff_mem]
    exact Path.mem_bytes_congr h (by decide) (by decide)
  have hempty : p.bytes.isEmpty = q.bytes.isEmpty := by
    rw [Bool.eq_iff_iff, List.isEmpty_iff, List.isEmpty_iff]
    exact Path.bytes_eq_nil_congr h
  have hlong : pathLimit < p.bytes.length ↔ pathLimit < q.bytes.length := by
    rw [← Nat.not_le, ← Nat.not_le]
    exact not_congr hfits
  simp only [resolve, hnull, hempty, hlong, Path.isAbsolute_congr h, followFrom_tellingOf hp,
    followFrom_tellingOf hq, Path.telling_congr h]

/-- **Two spellings of a path lead to the same directory**, whatever segments they end in. -/
theorem resolve_directory_congr {entries : Entries} (hfits : Fits q)
    (hresolve : d.resolve p = .ok (.taken names))
    (hat : d.root.at? names = some (.directory entries)) :
    d.resolve q = .ok (.taken names) := by
  have hadmissible : Admissible q :=
    (admissible_congr h (iff_of_true (admissible_of_resolve hresolve).2.2 hfits)).1
      (admissible_of_resolve hresolve)
  obtain ⟨here, links, there, hstart, hthere, rfl, hmore⟩ :=
    resolve_reached (top_not_isLink (node_of_resolve hresolve hat)) hresolve
  have hnode : there.node = .directory entries := Option.some.inj (hthere.at?.symm.trans hat)
  -- a slash at the end of a path to a directory says nothing
  have hslash : followFrom d.top linkLimit here (p.segments ++ [[]])
      = .ok (.taken there.names) := by
    rw [hmore]
    cases links <;> exact followSegments_skip hnode rfl
  have hplain : ∀ segments, followFrom d.top linkLimit here (segments ++ [[]])
      = followFrom d.top linkLimit here (tellingOf segments ++ [[]]) :=
    followFrom_telling d.top linkLimit here (List.cons_ne_nil [] []) []
  rw [resolve_of_admissible hadmissible, ← start?_congr h, hstart]
  apply followFrom_drop (show Path.isTrivialSegment [] = true from rfl)
  calc followFrom d.top linkLimit here (q.segments ++ [[]])
      = followFrom d.top linkLimit here (tellingOf q.segments ++ [[]]) := hplain q.segments
    _ = followFrom d.top linkLimit here (tellingOf p.segments ++ [[]]) := by
        rw [Path.telling_congr h]
    _ = followFrom d.top linkLimit here (p.segments ++ [[]]) := (hplain p.segments).symm
    _ = .ok (.taken there.names) := hslash

end Congruence

/-- What is at a path depends on where it leads alone. -/
theorem node_of_resolve_eq (h : d.resolve p = d.resolve q) : d.node p = d.node q := by
  rw [Disk.node, Disk.node, location, location, h]

end Unimported.Disk
