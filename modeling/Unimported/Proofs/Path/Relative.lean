/-
Paths as seen from a base, and their directories.

A base comes off a path exactly if its components are the first ones of the path, and what is left
spells the others: `stripBase?_cases`. The directories of a path are its segments but the last one;
by the bytes of a path they are what has a slash behind it, and by its components they are the
components but the last one, as far as they say anything. So spellings of one path have the same
directories as seen from a base, up to empty segments and single dots.
-/
import Unimported.Proofs.Path.Spelling
import Mathlib.Data.List.DropRight

set_option autoImplicit false

namespace Unimported.Path

open Text (Byte)

variable {p q base : Path} {segments : List Name} {n : Name}

/-! ## Trimmed segments

What is left of a path is trimmed at both ends before it becomes a path again. Trimming
drops trivial segments only, so the components stay, and the first segment then opens
neither with a slash nor with a dot. -/

theorem exists_ofSegment? {s : Name} (h : isTrivialSegment s = false) :
    ∃ component, Component.ofSegment? s = some component :=
  Option.ne_none_iff_exists'.1 fun hnone =>
    Bool.eq_false_iff.1 h (ofSegment?_eq_none_iff.1 hnone)

theorem filterMap_dropWhile_trivial (segments : List Name) :
    (segments.dropWhile isTrivialSegment).filterMap Component.ofSegment?
      = segments.filterMap Component.ofSegment? := by
  induction segments with
  | nil => rfl
  | cons segment segments ih =>
    by_cases htrivial : isTrivialSegment segment = true
    · rw [List.dropWhile_cons_of_pos htrivial, ih,
        List.filterMap_cons_none (ofSegment?_eq_none_iff.2 htrivial)]
    · rw [List.dropWhile_cons_of_neg htrivial]

/-- Trimming takes nothing away that says anything. -/
theorem filterMap_trimSegments (segments : List Name) :
    (trimSegments segments).filterMap Component.ofSegment?
      = segments.filterMap Component.ofSegment? := by
  rw [trimSegments, List.filterMap_reverse, filterMap_dropWhile_trivial, List.filterMap_reverse,
    List.reverse_reverse, filterMap_dropWhile_trivial]

theorem trimmed_trimSegments (segments : List Name) : Trimmed (trimSegments segments) := by
  have hhead : ∀ l : List Name, ∀ s ∈ (l.dropWhile isTrivialSegment).head?,
      isTrivialSegment s = false := fun l s hs => by
    have hfind := List.head?_dropWhile_not isTrivialSegment l
    rw [Option.mem_def.1 hs] at hfind
    exact hfind
  refine ⟨fun s hs => ?_, fun s hs => ?_⟩
  · obtain ⟨trivials, htrivials⟩ : trimSegments segments <+: segments.dropWhile isTrivialSegment :=
      List.rdropWhile_prefix isTrivialSegment _
    exact hhead segments s (htrivials ▸ List.mem_head?_append_of_mem_head? hs)
  · rw [trimSegments, List.getLast?_reverse] at hs
    exact hhead _ s hs

/-- A path that ends in a segment that says something, unless it is empty. -/
def EndsPlain (p : Path) : Prop :=
  p.bytes = [] ∨ ∀ s ∈ p.segments.getLast?, isTrivialSegment s = false

/-- Trimmed segments are a path, which spells what they say. -/
theorem components_trimSegments (h : ∀ s ∈ segments, slash ∉ s) :
    (Path.mk (joinSlash (trimSegments segments))).components
        = segments.filterMap Component.ofSegment? ∧
      EndsPlain ⟨joinSlash (trimSegments segments)⟩ := by
  have htrimmed := trimmed_trimSegments segments
  have hsub : trimSegments segments ⊆ segments := fun s hs => by
    rw [trimSegments, List.mem_reverse] at hs
    have hs := List.mem_reverse.1 ((List.dropWhile_suffix _).subset hs)
    exact (List.dropWhile_suffix _).subset hs
  rw [← filterMap_trimSegments]
  generalize trimSegments segments = trimmed at htrimmed hsub
  cases trimmed with
  | nil => exact ⟨rfl, .inl rfl⟩
  | cons first rest =>
    have hsegments : (Path.mk (joinSlash (first :: rest))).segments = first :: rest :=
      splitSlash_joinSlash fun s hs => h s (hsub hs)
    have hfirst := htrimmed.first first rfl
    rw [isTrivialSegment, Bool.or_eq_false_iff, decide_eq_false_iff_not,
      decide_eq_false_iff_not] at hfirst
    -- so the path opens like one within another
    have hinner := inner_of_segments hsegments hfirst.1 hfirst.2
    rw [hinner.components_eq, hsegments]
    refine ⟨rfl, .inr ?_⟩
    rw [hsegments]
    exact htrimmed.last

/-! ## Taking a base off

The components of the base come off the segments one by one, trivial ones being passed over.
It works exactly if they are the first components of the path. How either path opens is a
case apart, as a slash and a leading dot are components only at the very front. -/

/-- Components come off segments exactly if those spell them first. -/
theorem dropComponents?_cases (components : List Component) (segments : List Name) :
    (∃ rest, dropComponents? components segments = some rest ∧ rest <:+ segments ∧
        segments.filterMap Component.ofSegment?
          = components ++ rest.filterMap Component.ofSegment?) ∨
      dropComponents? components segments = none ∧
        ¬ components <+: segments.filterMap Component.ofSegment? := by
  induction components generalizing segments with
  | nil => exact .inl ⟨segments, rfl, List.suffix_rfl, rfl⟩
  | cons component components ih =>
    rw [dropComponents?, ← filterMap_dropWhile_trivial]
    have hsuffix := List.dropWhile_suffix isTrivialSegment (l := segments)
    have hfind := List.head?_dropWhile_not isTrivialSegment segments
    generalize segments.dropWhile isTrivialSegment = plain at hsuffix hfind
    cases plain with
    | nil => exact .inr ⟨rfl, by simp⟩
    | cons segment rest =>
      -- the first segment that says something has to say the first component
      obtain ⟨found, hfound⟩ := exists_ofSegment? hfind
      rw [List.filterMap_cons_some hfound]
      simp only [hfound, Option.some.injEq]
      by_cases hsame : found = component
      · rw [if_pos hsame, hsame]
        rcases ih rest with ⟨left, hdrop, hleft, hrest⟩ | ⟨hdrop, hprefix⟩
        · exact .inl ⟨left, hdrop, hleft.trans ((List.suffix_cons segment rest).trans hsuffix),
            congrArg _ hrest⟩
        · exact .inr ⟨hdrop, fun h => hprefix (List.cons_prefix_cons.1 h).2⟩
      · rw [if_neg hsame]
        exact .inr ⟨rfl, fun h => hsame (List.cons_prefix_cons.1 h).1.symm⟩

/-- What is left, trimmed, is a path that spells the other components. -/
theorem map_dropComponents?_cases (components : List Component) (h : ∀ s ∈ segments, slash ∉ s) :
    (∃ q, (dropComponents? components segments).map
          (fun rest => Path.mk (joinSlash (trimSegments rest))) = some q ∧
        segments.filterMap Component.ofSegment? = components ++ q.components ∧ EndsPlain q) ∨
      (dropComponents? components segments).map
          (fun rest => Path.mk (joinSlash (trimSegments rest))) = none ∧
        ¬ components <+: segments.filterMap Component.ofSegment? := by
  rcases dropComponents?_cases components segments with ⟨rest, hdrop, hsuffix, hrest⟩ |
    ⟨hdrop, hprefix⟩
  · obtain ⟨hcomponents, hends⟩ := components_trimSegments fun s hs => h s (hsuffix.subset hs)
    refine .inl ⟨_, by rw [hdrop, Option.map_some], ?_, hends⟩
    rw [hrest, hcomponents]
  · exact .inr ⟨by rw [hdrop, Option.map_none], hprefix⟩

/-- A path that begins with the root or with a leading dot opens with it. -/
theorem firstComponent?_of_begins {first : Component} {components : List Component}
    (hlead : first = .root ∨ first = .here) {opening : Name} {behind : List Name}
    (hsegments : p.segments = opening :: behind) (h : first :: components <+: p.components) :
    p.firstComponent? opening = some first := by
  rw [components_of_segments hsegments] at h
  cases hopening : p.firstComponent? opening with
  | none =>
    rw [hopening] at h
    obtain ⟨s, -, hs⟩ := List.mem_filterMap.1 (h.subset List.mem_cons_self)
    exact absurd hlead (ofSegment?_ne_lead s hs)
  | some component =>
    rw [hopening] at h
    exact congrArg some (List.cons_prefix_cons.1 h).1.symm

/-- A path that opens with a slash or with a dot begins with the root or with a leading dot. -/
theorem lead_of_begins {first : Component} {components : List Component} {opening : Name}
    {behind : List Name} (hsegments : p.segments = opening :: behind)
    (hopen : p.isAbsolute = true ∨ opening = [dot]) (h : first :: components <+: p.components) :
    first = .root ∨ first = .here := by
  rw [components_of_segments hsegments, firstComponent?] at h
  by_cases habsolute : p.isAbsolute = true
  · rw [if_pos habsolute] at h
    exact .inl (List.cons_prefix_cons.1 h).1
  · rw [if_neg habsolute, if_pos (hopen.resolve_left habsolute)] at h
    exact .inr (List.cons_prefix_cons.1 h).1

/-- **A base comes off** exactly if its components are the first ones of the path; what is left
spells the others. -/
theorem stripBase?_cases (p base : Path) :
    (∃ q, p.stripBase? base = some q ∧ p.components = base.components ++ q.components ∧
        (EndsPlain p → EndsPlain q)) ∨
      p.stripBase? base = none ∧ ¬ base.components <+: p.components := by
  obtain ⟨opening, behind, hsegments⟩ : ∃ opening behind, p.segments = opening :: behind :=
    List.exists_cons_of_ne_nil (splitSlash_ne_nil p.bytes)
  have hplain : ∀ s ∈ opening :: behind, slash ∉ s := fun s hs =>
    not_mem_of_mem_splitSlash (hsegments ▸ hs : s ∈ p.segments)
  rw [stripBase?, hsegments]
  cases base.components with
  | nil => exact .inl ⟨p, rfl, rfl, id⟩
  | cons first components =>
    dsimp only
    by_cases hlead : first = .root ∨ first = .here
    · rw [if_pos hlead]
      by_cases hfirst : p.firstComponent? opening = some first
      · -- the path opens as the base does, and the other components come off what is behind
        rw [if_pos hfirst, components_of_segments hsegments, hfirst, Option.toList_some,
          List.singleton_append]
        rcases map_dropComponents?_cases components (List.forall_mem_cons.1 hplain).2 with
          ⟨q, hq, hcomponents, hends⟩ | ⟨hnone, hprefix⟩
        · exact .inl ⟨q, hq, congrArg (first :: ·) hcomponents, fun _ => hends⟩
        · exact .inr ⟨hnone, fun h => hprefix (List.cons_prefix_cons.1 h).2⟩
      · rw [if_neg hfirst]
        exact .inr ⟨rfl, fun h => hfirst (firstComponent?_of_begins hlead hsegments h)⟩
    · rw [if_neg hlead]
      by_cases hopen : p.isAbsolute = true ∨ opening = [dot]
      · rw [if_pos hopen]
        exact .inr ⟨rfl, fun h => hlead (lead_of_begins hsegments hopen h)⟩
      · -- the path opens like one within another, and all components come off its segments
        obtain ⟨hrelative, hdot⟩ := not_or.1 hopen
        have hinner : Inner p := by
          refine ⟨Bool.eq_false_iff.2 hrelative, ?_⟩
          rw [hsegments]
          exact fun heq => hdot (Option.some.inj heq)
        rw [if_neg hopen, hinner.components_eq, hsegments]
        rcases map_dropComponents?_cases (first :: components) hplain with
          ⟨q, hq, hcomponents, hends⟩ | hnone
        · exact .inl ⟨q, hq, hcomponents, fun _ => hends⟩
        · exact .inr hnone

/-- Spellings of one path are spellings of one path as seen from a base. -/
theorem relativeTo_congr (h : p.components = q.components) (base : Path) :
    (p.relativeTo base).components = (q.relativeTo base).components := by
  rw [relativeTo, relativeTo]
  -- whether the base comes off is told by the components, so it comes off both or neither
  rcases stripBase?_cases p base with ⟨p', hp, hcomponents, -⟩ | ⟨hp, hprefix⟩ <;>
    rcases stripBase?_cases q base with ⟨q', hq, hcomponents', -⟩ | ⟨hq, hprefix'⟩
  · rw [hp, hq]
    exact List.append_cancel_left (hcomponents.symm.trans (h.trans hcomponents'))
  · exact absurd ⟨_, hcomponents.symm.trans h⟩ hprefix'
  · exact absurd ⟨_, hcomponents'.symm.trans h.symm⟩ hprefix
  · rw [hp, hq]
    exact h

theorem EndsPlain.relativeTo (h : EndsPlain p) (base : Path) : EndsPlain (p.relativeTo base) := by
  rw [Path.relativeTo]
  rcases stripBase?_cases p base with ⟨q, hq, -, hends⟩ | ⟨hnone, -⟩
  · rw [hq]
    exact hends h
  · rw [hnone]
    exact h

/-! ## Directories

The directories are read off the segments, so they depend on the spelling; but those that
say something are components. A path that ends in a plain segment has that for its last
component, and both lists lose it. -/

/-- The segments of a path that name directories: all but the last. -/
def directories (p : Path) : List Name := p.segments.dropLast

example : (ofString "/dist//a.js").directories = ["", "dist", ""].map Text.Utf8.ofString := by
  decide

/-- **A segment that is not the last one** has a slash behind it, and nothing or a slash in front.
-/
theorem mem_directories_iff (hn : slash ∉ n) :
    n ∈ p.directories ↔ ∃ front behind, (front = [] ∨ front.getLast? = some slash) ∧
      p.bytes = front ++ (n ++ slash :: behind) := by
  rw [directories, Path.segments]
  constructor
  · intro hmem
    -- the last segment is no directory, so it comes somewhere behind this one
    obtain ⟨before, others, hothers⟩ := List.mem_iff_append.1 hmem
    have hne := splitSlash_ne_nil p.bytes
    have hsegments : splitSlash p.bytes
        = before ++ n :: (others ++ [(splitSlash p.bytes).getLast hne]) := by
      conv_lhs => rw [← List.dropLast_append_getLast hne, hothers, List.append_assoc]
      rfl
    obtain ⟨front, hfront, hjoin⟩ := exists_front_bytes before
      (n :: (others ++ [(splitSlash p.bytes).getLast hne])) (List.cons_ne_nil _ _)
    obtain ⟨second, rest, hrest⟩ := List.exists_cons_of_ne_nil
      (List.append_ne_nil_of_right_ne_nil others (List.cons_ne_nil _ []))
    refine ⟨front, joinSlash (second :: rest), hfront, ?_⟩
    rw [← joinSlash_splitSlash p.bytes, hsegments, hjoin, hrest, joinSlash_cons_cons]
  · rintro ⟨front, behind, hfront, hbytes⟩
    have hbehind := splitSlash_ne_nil behind
    have hsplit : splitSlash (n ++ slash :: behind) = n :: splitSlash behind := by
      rw [splitSlash_append_slash, splitSlash_of_not_mem hn]
      rfl
    have hmem : n ∈ (splitSlash (n ++ slash :: behind)).dropLast := by
      rw [hsplit, List.dropLast_cons_of_ne_nil hbehind]
      exact List.mem_cons_self
    rcases hfront with rfl | hslash
    · rwa [hbytes]
    · obtain ⟨before, rfl⟩ := List.getLast?_eq_some_iff.1 hslash
      rw [hbytes, List.append_assoc, List.singleton_append, splitSlash_append_slash,
        List.dropLast_append_of_ne_nil (splitSlash_ne_nil _)]
      exact List.mem_append_right _ hmem

/-- Segments that say the same are the same. -/
theorem eq_of_ofSegment? {s s' : Name} {component : Component}
    (h : Component.ofSegment? s = some component) (h' : Component.ofSegment? s' = some component) :
    s = s' := by
  rw [Component.ofSegment?] at h h'
  grind

/-- A segment that says something opens a path with what it says, or not at all. -/
theorem firstComponent?_eq_some_iff {opening : Name} {behind : List Name} {component : Component}
    (hsegments : p.segments = opening :: behind) (hn : Component.ofSegment? n = some component) :
    p.firstComponent? opening = some component ↔ n = opening := by
  have hlead := ofSegment?_ne_lead n hn
  rw [firstComponent?]
  -- in an absolute path the first segment is empty, and otherwise it may be a dot; neither
  -- says anything elsewhere
  by_cases habsolute : p.isAbsolute = true
  · have hempty : opening = [] := by
      by_contra hne
      exact Bool.eq_false_iff.1 (isAbsolute_of_segments hsegments hne) habsolute
    rw [if_pos habsolute, hempty]
    refine iff_of_false (fun h => hlead (.inl (Option.some.inj h).symm)) ?_
    rintro rfl
    cases hn
  · rw [if_neg habsolute]
    by_cases hdot : opening = [dot]
    · rw [if_pos hdot, hdot]
      refine iff_of_false (fun h => hlead (.inr (Option.some.inj h).symm)) ?_
      rintro rfl
      cases hn
    · rw [if_neg hdot]
      exact ⟨eq_of_ofSegment? hn, fun h => h ▸ hn⟩

/-- **The directories of a path, by its components.** -/
theorem mem_directories_iff_components (h : EndsPlain p) {component : Component}
    (hn : Component.ofSegment? n = some component) :
    n ∈ p.directories ↔ component ∈ p.components.dropLast := by
  rcases h with hempty | hlast
  · obtain ⟨bytes⟩ := p
    obtain rfl : bytes = [] := hempty
    exact iff_of_false List.not_mem_nil List.not_mem_nil
  · obtain ⟨front, last, hsegments⟩ :=
      (List.eq_nil_or_concat' p.segments).resolve_left (splitSlash_ne_nil p.bytes)
    -- the last segment says something, so it is the last component
    have hplain := hlast last (by rw [hsegments, List.getLast?_concat]; rfl)
    obtain ⟨lastComponent, hcomponent⟩ := exists_ofSegment? hplain
    rw [directories, hsegments, List.dropLast_concat]
    cases front with
    | nil =>
      rw [components_of_segments hsegments]
      cases p.firstComponent? last <;> exact iff_of_false List.not_mem_nil List.not_mem_nil
    | cons opening rest =>
      have hrest : n ∈ rest ↔ component ∈ rest.filterMap Component.ofSegment? := by
        rw [List.mem_filterMap]
        refine ⟨fun hmem => ⟨n, hmem, hn⟩, ?_⟩
        rintro ⟨s, hs, hsame⟩
        exact eq_of_ofSegment? hn hsame ▸ hs
      have hend : [last].filterMap Component.ofSegment? = [lastComponent] :=
        List.filterMap_cons_some hcomponent
      rw [List.cons_append] at hsegments
      rw [components_of_segments hsegments, List.filterMap_append, hend, ← List.append_assoc,
        List.dropLast_concat, List.mem_append, Option.mem_toList,
        firstComponent?_eq_some_iff hsegments hn, List.mem_cons, hrest]

/-- Seen from a base, spellings of one path have the same directories, as far as those say
anything. -/
theorem mem_directories_relativeTo_congr (hp : EndsPlain p) (hq : EndsPlain q)
    (h : p.components = q.components) (hn : isTrivialSegment n = false) (base : Path) :
    n ∈ (p.relativeTo base).directories ↔ n ∈ (q.relativeTo base).directories := by
  obtain ⟨component, hcomponent⟩ := exists_ofSegment? hn
  rw [mem_directories_iff_components (hp.relativeTo base) hcomponent,
    mem_directories_iff_components (hq.relativeTo base) hcomponent, relativeTo_congr h]

end Unimported.Path
