/-
Paths with the same components.

Apart from its first one, a path has a component for each segment that says something, and in its
place. So two paths with the same components have the same telling segments: they differ in empty
segments and single dots alone, and both start at the root or neither does. Joining something to
them, or them to something, leaves the components the same.
-/
import Unimported.Proofs.Path.Relative

set_option autoImplicit false

namespace Unimported

open Text (Byte)

namespace Component

/-- Whether the component can only open a path. -/
def opens : Component → Bool
  | .root => true
  | .here => true
  | .up => false
  | .name _ => false

/-- The segment that stands for the component within a path. -/
def segment : Component → Name
  | .root => []
  | .here => [dot]
  | .up => [dot, dot]
  | .name n => n

/-- A segment is told by its component. -/
theorem segment_eq {s : Name} {component : Component} (h : ofSegment? s = some component) :
    component.segment = s := by
  rw [ofSegment?] at h
  split at h
  · cases h
  · split at h
    · rw [← Option.some.inj h, ‹s = _›]
      rfl
    · rw [← Option.some.inj h]
      rfl

theorem not_opens {s : Name} {component : Component} (h : ofSegment? s = some component) :
    component.opens = false := by
  have hlead := Path.ofSegment?_ne_lead s h
  cases component with
  | root => exact absurd (.inl rfl) hlead
  | here => exact absurd (.inr rfl) hlead
  | up => rfl
  | name n => rfl

end Component

namespace Path

variable {p q r : Path} {segments : List Name}

/-! ## Telling segments

Components are read off the segments, and segments that say something can be read off the
components again. Only the component that opens a path has no segment of its own. -/

/-- The segments that say something. -/
def tellingOf (segments : List Name) : List Name := segments.filter fun s => !isTrivialSegment s

theorem tellingOf_cons_of_trivial {s : Name} (h : isTrivialSegment s = true) :
    tellingOf (s :: segments) = tellingOf segments :=
  List.filter_cons_of_neg (by rw [h]; exact Bool.false_ne_true)

theorem tellingOf_cons_of_not_trivial {s : Name} (h : isTrivialSegment s = false) :
    tellingOf (s :: segments) = s :: tellingOf segments :=
  List.filter_cons_of_pos (by rw [h]; rfl)

theorem tellingOf_append (front behind : List Name) :
    tellingOf (front ++ behind) = tellingOf front ++ tellingOf behind :=
  List.filter_append front behind

/-- Segments that say something are told by what they say. -/
theorem tellingOf_eq (segments : List Name) :
    tellingOf segments
      = (segments.filterMap Component.ofSegment?).map Component.segment := by
  induction segments with
  | nil => rfl
  | cons s segments ih =>
    cases htrivial : isTrivialSegment s with
    | true =>
      have hnone := ofSegment?_eq_none_iff.2 htrivial
      rw [tellingOf_cons_of_trivial htrivial, List.filterMap_cons_none hnone, ih]
    | false =>
      obtain ⟨component, hsome⟩ := exists_ofSegment? htrivial
      rw [tellingOf_cons_of_not_trivial htrivial, List.filterMap_cons_some hsome, List.map_cons,
        Component.segment_eq hsome, ih]

/-- What the segments of a path say are its components, less one that only opens it. -/
theorem filterMap_segments (p : Path) :
    p.segments.filterMap Component.ofSegment? = p.components.filter fun c => !c.opens := by
  obtain ⟨first, rest, hsegments⟩ := List.exists_cons_of_ne_nil (splitSlash_ne_nil p.bytes)
  replace hsegments : p.segments = first :: rest := hsegments
  -- behind the first segment nothing opens the path
  have hinner : (rest.filterMap Component.ofSegment?).filter (fun c => !c.opens)
      = rest.filterMap Component.ofSegment? := by
    refine List.filter_eq_self.2 fun component hmem => ?_
    obtain ⟨s, -, hs⟩ := List.mem_filterMap.1 hmem
    rw [Component.not_opens hs]
    rfl
  rw [components_of_segments hsegments, List.filter_append, hinner, hsegments]
  by_cases habsolute : p.isAbsolute = true
  · obtain rfl : first = [] := by
      by_contra hne
      rw [isAbsolute_of_segments hsegments hne] at habsolute
      cases habsolute
    rw [firstComponent?, if_pos habsolute]
    rfl
  · rw [firstComponent?, if_neg habsolute]
    by_cases hdot : first = [dot]
    · rw [if_pos hdot, hdot]
      rfl
    · rw [if_neg hdot]
      cases hfirst : Component.ofSegment? first with
      | none => rw [List.filterMap_cons_none hfirst]; rfl
      | some component =>
        rw [List.filterMap_cons_some hfirst, Option.toList_some, List.filter_singleton,
          Component.not_opens hfirst]
        rfl

/-- A path is absolute exactly if its components start at the root. -/
theorem isAbsolute_iff : p.isAbsolute = true ↔ p.components.head? = some .root := by
  obtain ⟨first, rest, hsegments⟩ := List.exists_cons_of_ne_nil (splitSlash_ne_nil p.bytes)
  rw [components_of_segments hsegments, firstComponent?]
  by_cases habsolute : p.isAbsolute = true
  · rw [if_pos habsolute]
    exact iff_of_true habsolute rfl
  · rw [if_neg habsolute]
    refine iff_of_false habsolute fun hhead => ?_
    -- no other segment stands for the root
    have hroot : ∀ s, Component.ofSegment? s ≠ some .root := fun s hs => by
      cases Component.not_opens hs
    -- the path opens with a dot, or with what its first segment says
    split at hhead
    · cases hhead
    · cases hfirst : Component.ofSegment? first with
      | some component =>
        rw [hfirst] at hhead
        exact hroot first (hfirst.trans hhead)
      | none =>
        rw [hfirst, Option.toList_none, List.nil_append] at hhead
        obtain ⟨s, -, hs⟩ := List.mem_filterMap.1 (List.mem_of_mem_head? hhead)
        exact hroot s hs

/-- A byte other than the slash stands in a path exactly if it stands in one of its segments. -/
theorem mem_bytes_iff {b : Byte} (hb : b ≠ slash) :
    b ∈ p.bytes ↔ ∃ s ∈ p.segments, b ∈ s := by
  refine ⟨mem_splitSlash hb, ?_⟩
  have hjoin : ∀ segments : List Name, (∃ s ∈ segments, b ∈ s) → b ∈ joinSlash segments := by
    intro segments
    induction segments with
    | nil => simp
    | cons first rest ih =>
      rintro ⟨s, hs, hmem⟩
      cases rest with
      | nil => exact List.mem_singleton.1 hs ▸ hmem
      | cons second rest =>
        rw [joinSlash_cons_cons, List.mem_append, List.mem_cons]
        rcases List.mem_cons.1 hs with rfl | hs
        · exact .inl hmem
        · exact .inr (.inr (ih ⟨s, hs, hmem⟩))
  intro h
  rw [← joinSlash_splitSlash p.bytes]
  exact hjoin _ h

/-! ## Congruence

Each of these asks for the telling segments or for how the path opens, and the components
give both. -/

section Congruence

variable (h : p.components = q.components)

include h

theorem telling_congr : tellingOf p.segments = tellingOf q.segments := by
  rw [tellingOf_eq, tellingOf_eq, filterMap_segments, filterMap_segments, h]

theorem isAbsolute_congr : p.isAbsolute = q.isAbsolute := by
  rw [Bool.eq_iff_iff, isAbsolute_iff, isAbsolute_iff, h]

theorem bytes_eq_nil_congr : p.bytes = [] ↔ q.bytes = [] := by
  have hempty : ∀ p : Path, p.bytes = [] ↔ p.components = [] := by
    refine fun p => ⟨fun hp => ?_, fun hp => ?_⟩
    · obtain ⟨bytes⟩ := p
      obtain rfl : bytes = [] := hp
      rfl
    · by_contra hne
      exact components_ne_nil hne hp
  rw [hempty, hempty, h]

/-- A byte that is neither slash nor dot stands in both paths or in neither. -/
theorem mem_bytes_congr {b : Byte} (hslash : b ≠ slash) (hdot : b ≠ dot) :
    b ∈ p.bytes ↔ b ∈ q.bytes := by
  have htelling : ∀ p : Path, b ∈ p.bytes ↔ ∃ s ∈ tellingOf p.segments, b ∈ s := by
    intro p
    rw [mem_bytes_iff hslash]
    refine exists_congr fun s => ?_
    rw [tellingOf, List.mem_filter, Bool.not_eq_true']
    -- what says nothing is empty or a dot, and the byte is in neither
    refine ⟨fun ⟨hs, hmem⟩ => ⟨⟨hs, ?_⟩, hmem⟩, fun ⟨⟨hs, _⟩, hmem⟩ => ⟨hs, hmem⟩⟩
    refine Bool.eq_false_iff.2 fun htrivial => ?_
    rcases isTrivialSegment_iff.1 htrivial with rfl | rfl
    · cases hmem
    · exact hdot (List.mem_singleton.1 hmem)
  rw [htelling, htelling, telling_congr h]

/-- Names are joined to both. -/
theorem components_extend_congr {names : List Name} (hp : p.bytes ≠ [])
    (hnames : ∀ n ∈ names, IsName n) :
    (p.extend names).components = (q.extend names).components := by
  rw [components_extend hp hnames, components_extend (mt (bytes_eq_nil_congr h).2 hp) hnames, h]

/-- Both are joined to a path. -/
theorem components_join_congr (hr : r.bytes ≠ []) (hp : p.isAbsolute = false) :
    (r.join p).components = (r.join q).components := by
  have hjoin : ∀ p : Path, p.isAbsolute = false →
      (r.join p).components = r.components ++ p.segments.filterMap Component.ofSegment? := by
    intro p hp
    obtain ⟨first, front, -, -, hcomponents, hsegments, hfirst⟩ := join_front hr hp
    rw [components_of_segments hsegments, hfirst, hcomponents, List.filterMap_append,
      List.append_assoc]
  rw [hjoin p hp, hjoin q (by rw [← isAbsolute_congr h, hp]), filterMap_segments,
    filterMap_segments, h]

end Congruence

/-! ## Bytes in front of names

Components do not say how many slashes stand between them, but names are joined with one
each. So the bytes are known from the end of the path on. -/

/-- The bytes of a path in front of what is joined to it. -/
def opening (p : Path) : List Byte :=
  if p.bytes.getLast? = some slash then p.bytes else p.bytes ++ [slash]

/-- **Names stand behind a path as they are**, with a slash between each two. -/
theorem bytes_extend {names : List Name} (hp : p.bytes ≠ []) (hne : names ≠ [])
    (h : ∀ n ∈ names, IsName n) : (p.extend names).bytes = p.opening ++ joinSlash names := by
  induction names generalizing p with
  | nil => exact absurd rfl hne
  | cons n names ih =>
    obtain ⟨hn, hnames⟩ := List.forall_mem_cons.1 h
    have hjoin : (p.join ⟨n⟩).bytes = p.opening ++ n := by
      rw [join, if_neg (by rw [hn.not_isAbsolute]; exact Bool.false_ne_true), opening]
      by_cases hslash : p.bytes.getLast? = some slash
      · rw [if_pos (.inr hslash), if_pos hslash]
      · rw [if_neg (not_or.2 ⟨hp, hslash⟩), if_neg hslash, List.append_assoc]
        rfl
    cases names with
    | nil => exact hjoin
    | cons next names =>
      -- a name does not end in a slash
      have hlast : (p.opening ++ n).getLast? ≠ some slash := by
        rw [List.getLast?_append_of_ne_nil _ hn.1]
        exact fun hlast => hn.2.2.2 (List.mem_of_mem_getLast? hlast)
      have hopening : (p.join ⟨n⟩).opening = p.opening ++ n ++ [slash] := by
        rw [opening, hjoin, if_neg hlast]
      have hrest := ih (join_bytes_ne_nil hp hn.not_isAbsolute) (List.cons_ne_nil next names) hnames
      calc ((p.join ⟨n⟩).extend (next :: names)).bytes
          = p.opening ++ n ++ [slash] ++ joinSlash (next :: names) := by rw [hrest, hopening]
        _ = p.opening ++ joinSlash (n :: next :: names) := by
            rw [joinSlash_cons_cons, List.append_assoc, List.append_assoc]
            rfl

theorem getLast?_opening (p : Path) : p.opening.getLast? = some slash := by
  rw [opening]
  by_cases hslash : p.bytes.getLast? = some slash
  · rw [if_pos hslash, hslash]
  · rw [if_neg hslash, List.getLast?_concat]

end Path

end Unimported
