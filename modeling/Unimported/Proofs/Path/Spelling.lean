/-
How paths are spelled.

A path is read by its segments, but what is spelled can be said without reading: it opens with a
slash, with a dot or with neither, and segments that say nothing may stand anywhere behind that.
`Path.Spells` is this grammar, and `spells_iff` says that the components of a path are what it
spells. A path can also be read from its end: `Path.EndsIn` cuts it into a path in front, a name,
and bytes behind the name that say nothing, and then the name is its last component and the path in
front spells the others.
-/
import Unimported.Proofs.Path.Join

set_option autoImplicit false

namespace Unimported

open Text (Byte)

/-! ## Segments

Cutting and joining are inverse to each other, as long as no segment has a slash in it. -/

theorem joinSlash_cons_cons (first second : Name) (rest : List Name) :
    joinSlash (first :: second :: rest) = first ++ slash :: joinSlash (second :: rest) := rfl

/-- Segments without slashes are what their bytes are cut into. -/
theorem splitSlash_joinSlash {first : Name} {rest : List Name}
    (h : ∀ segment ∈ first :: rest, slash ∉ segment) :
    splitSlash (joinSlash (first :: rest)) = first :: rest := by
  induction rest generalizing first with
  | nil => exact splitSlash_of_not_mem (h first List.mem_cons_self)
  | cons second rest ih =>
    rw [List.forall_mem_cons] at h
    rw [joinSlash_cons_cons, splitSlash_append_slash, splitSlash_of_not_mem h.1, ih h.2]
    rfl

theorem not_mem_of_mem_splitSlash {segment bytes : List Byte} (h : segment ∈ splitSlash bytes) :
    slash ∉ segment := by
  induction bytes generalizing segment with
  | nil =>
    rw [List.mem_singleton.1 h]
    exact List.not_mem_nil
  | cons b bytes ih =>
    obtain ⟨first, rest, hrest⟩ := List.exists_cons_of_ne_nil (splitSlash_ne_nil bytes)
    by_cases hb : b = slash
    · rw [hb, splitSlash_cons_slash] at h
      rcases List.mem_cons.1 h with rfl | h
      · exact List.not_mem_nil
      · exact ih h
    · rw [splitSlash_cons_of_ne hb hrest] at h
      rw [hrest] at ih
      rcases List.mem_cons.1 h with rfl | h
      · rw [List.mem_cons, not_or]
        exact ⟨Ne.symm hb, ih List.mem_cons_self⟩
      · exact ih (List.mem_cons_of_mem _ h)

namespace Path

variable {p q : Path} {segments : List Name} {components : List Component} {n : Name}

theorem isTrivialSegment_iff {segment : Name} :
    isTrivialSegment segment = true ↔ segment = [] ∨ segment = [dot] := by
  rw [isTrivialSegment, Bool.or_eq_true, decide_eq_true_eq, decide_eq_true_eq]

theorem filterMap_of_trivial (h : ∀ s ∈ segments, isTrivialSegment s = true) :
    segments.filterMap Component.ofSegment? = [] :=
  List.filterMap_eq_nil_iff.2 fun s hs => ofSegment?_eq_none_iff.2 (h s hs)

/-! ## The grammar

`SpelledBy` is about segments within a path, and `Spells` adds how the path opens. Neither
mentions the functions that read paths. -/

/-- What segments within a path spell: each stands for itself, or says nothing. -/
inductive SpelledBy : List Name → List Component → Prop where
  | nil : SpelledBy [] []
  /-- An empty segment is dropped, and so is a single dot. -/
  | nothing {segment : Name} {segments : List Name} {components : List Component}
    (htrivial : segment = [] ∨ segment = [dot]) (h : SpelledBy segments components) :
    SpelledBy (segment :: segments) components
  | up {segments : List Name} {components : List Component} (h : SpelledBy segments components) :
    SpelledBy ([dot, dot] :: segments) (.up :: components)
  | name {n : Name} {segments : List Name} {components : List Component} (hn : IsName n)
    (h : SpelledBy segments components) : SpelledBy (n :: segments) (.name n :: components)

/-- What a path spells, by the way it opens. -/
inductive Spells : Path → List Component → Prop where
  | absolute {segments : List Name} {components : List Component}
    (h : SpelledBy segments components) :
    Spells ⟨slash :: joinSlash segments⟩ (.root :: components)
  | here {segments : List Name} {components : List Component} (h : SpelledBy segments components) :
    Spells ⟨joinSlash ([dot] :: segments)⟩ (.here :: components)
  | empty : Spells ⟨[]⟩ []
  | relative {first : Name} {segments : List Name} {components : List Component}
    (hempty : first ≠ []) (hdot : first ≠ [dot])
    (h : SpelledBy (first :: segments) components) :
    Spells ⟨joinSlash (first :: segments)⟩ components

theorem SpelledBy.plain (h : SpelledBy segments components) :
    ∀ segment ∈ segments, slash ∉ segment := by
  induction h with
  | nil => exact fun _ h => absurd h List.not_mem_nil
  | nothing htrivial _ ih =>
    refine List.forall_mem_cons.2 ⟨?_, ih⟩
    rcases htrivial with rfl | rfl <;> decide
  | up _ ih => exact List.forall_mem_cons.2 ⟨by decide, ih⟩
  | name hn _ ih => exact List.forall_mem_cons.2 ⟨hn.2.2.2, ih⟩

theorem SpelledBy.filterMap_eq (h : SpelledBy segments components) :
    segments.filterMap Component.ofSegment? = components := by
  induction h with
  | nil => rfl
  | nothing htrivial _ ih =>
    rw [List.filterMap_cons_none (ofSegment?_eq_none_iff.2 (isTrivialSegment_iff.2 htrivial)), ih]
  | up _ ih =>
    have hup : Component.ofSegment? [dot, dot] = some .up := rfl
    rw [List.filterMap_cons_some hup, ih]
  | name hn _ ih => rw [List.filterMap_cons_some hn.ofSegment?, ih]

theorem spelledBy_filterMap (h : ∀ segment ∈ segments, slash ∉ segment) :
    SpelledBy segments (segments.filterMap Component.ofSegment?) := by
  induction segments with
  | nil => exact .nil
  | cons segment segments ih =>
    obtain ⟨hplain, hplains⟩ := List.forall_mem_cons.1 h
    -- a segment is trivial, two dots or a name, and each is a rule of the grammar
    by_cases htrivial : segment = [] ∨ segment = [dot]
    · rw [List.filterMap_cons_none
        (ofSegment?_eq_none_iff.2 (isTrivialSegment_iff.2 htrivial))]
      exact .nothing htrivial (ih hplains)
    · by_cases hup : segment = [dot, dot]
      · subst hup
        exact .up (ih hplains)
      · rw [not_or] at htrivial
        have hname : IsName segment := ⟨htrivial.1, htrivial.2, hup, hplain⟩
        rw [List.filterMap_cons_some hname.ofSegment?]
        exact .name hname (ih hplains)

/-! ## Reading by the grammar

What is spelled is read, by the rules; and what is read is spelled, since each way to open a
path is one of the four rules. So the grammar gives each path one list of components. -/

/-- A path has the components that it spells. -/
theorem Spells.components_eq (h : Spells p components) : p.components = components := by
  cases h with
  | empty => rfl
  | @absolute segments _ h =>
    -- the slash in front leaves an empty first segment, which opens the path
    have hsegments : ∃ rest, (Path.mk (slash :: joinSlash segments)).segments = [] :: rest ∧
        rest.filterMap Component.ofSegment? = segments.filterMap Component.ofSegment? := by
      rw [Path.segments, splitSlash_cons_slash]
      cases segments with
      | nil => exact ⟨_, rfl, rfl⟩
      | cons first rest => exact ⟨_, rfl, by rw [splitSlash_joinSlash h.plain]⟩
    obtain ⟨rest, hrest, hcomponents⟩ := hsegments
    rw [components_of_segments hrest, hcomponents, h.filterMap_eq]
    rfl
  | @here segments _ h =>
    have hplain : ∀ segment ∈ [dot] :: segments, slash ∉ segment :=
      List.forall_mem_cons.2 ⟨by decide, h.plain⟩
    have hrelative : (Path.mk (joinSlash ([dot] :: segments))).isAbsolute = false := by
      cases segments <;> rfl
    rw [components_of_segments (splitSlash_joinSlash hplain), h.filterMap_eq, firstComponent?,
      hrelative]
    rfl
  | @relative first segments _ hempty hdot h =>
    -- a first segment that is no dot is read like any other
    have hsegments : (Path.mk (joinSlash (first :: segments))).segments = first :: segments :=
      splitSlash_joinSlash h.plain
    rw [(inner_of_segments hsegments hempty hdot).components_eq, hsegments, h.filterMap_eq]

theorem spells_components (p : Path) : Spells p p.components := by
  obtain ⟨bytes⟩ := p
  obtain ⟨first, rest, hsegments⟩ := List.exists_cons_of_ne_nil (splitSlash_ne_nil bytes)
  have hplain : ∀ segment ∈ first :: rest, slash ∉ segment := fun segment hsegment =>
    not_mem_of_mem_splitSlash (hsegments ▸ hsegment)
  have hbytes : bytes = joinSlash (first :: rest) := by rw [← hsegments, joinSlash_splitSlash]
  have hrest := spelledBy_filterMap (List.forall_mem_cons.1 hplain).2
  -- the components are what one of the ways to open spells
  suffices hspells : ∃ components, Spells ⟨bytes⟩ components by
    obtain ⟨components, h⟩ := hspells
    rwa [h.components_eq]
  subst hbytes
  by_cases hempty : first = []
  · subst hempty
    cases rest with
    | nil => exact ⟨_, .empty⟩
    | cons second rest => exact ⟨_, .absolute hrest⟩
  · by_cases hdot : first = [dot]
    · subst hdot
      exact ⟨_, .here hrest⟩
    · exact ⟨_, .relative hempty hdot (spelledBy_filterMap hplain)⟩

/-- **The components of a path are what it spells.** -/
theorem spells_iff : Spells p components ↔ p.components = components :=
  ⟨Spells.components_eq, fun h => h ▸ spells_components p⟩

theorem SpelledBy.isName (h : SpelledBy segments components) (hmem : .name n ∈ components) :
    IsName n := by
  induction h with
  | nil => cases hmem
  | nothing _ _ ih => exact ih hmem
  | up _ ih => exact ih ((List.mem_cons.1 hmem).resolve_left nofun)
  | name hn _ ih =>
    rcases List.mem_cons.1 hmem with heq | hmem
    · exact Component.name.inj heq ▸ hn
    · exact ih hmem

theorem Spells.isName (h : Spells p components) (hmem : .name n ∈ components) : IsName n := by
  cases h with
  | absolute h => exact h.isName ((List.mem_cons.1 hmem).resolve_left nofun)
  | here h => exact h.isName ((List.mem_cons.1 hmem).resolve_left nofun)
  | empty => cases hmem
  | relative _ _ h => exact h.isName hmem

/-! ## Reading from the end

The last component is a name exactly if the path can be cut before it: behind the name there
are only segments that say nothing, and in front of it stands a path that is empty or ends
in a slash. -/

/-- A path is cut into a path in front, which is empty or ends in a slash, a name, and bytes behind
it, which say nothing. -/
structure EndsIn (p front : Path) (n : Name) : Prop where
  name : IsName n
  front_ends : front.bytes = [] ∨ front.bytes.getLast? = some slash
  bytes_eq : p.bytes = front.bytes ++ n ∨
    ∃ behind, p.bytes = front.bytes ++ (n ++ slash :: behind) ∧
      ∀ segment ∈ splitSlash behind, isTrivialSegment segment = true

/-- The segments of the name and of what is behind it. -/
theorem EndsIn.segments_behind {front : Path} (h : EndsIn p front n) :
    ∃ behind trivials, p.bytes = front.bytes ++ behind ∧ splitSlash behind = n :: trivials ∧
      trivials.filterMap Component.ofSegment? = [] := by
  have hn := splitSlash_of_not_mem h.name.2.2.2
  rcases h.bytes_eq with hbytes | ⟨behind, hbytes, htrivial⟩
  · exact ⟨n, [], hbytes, hn, rfl⟩
  · refine ⟨n ++ slash :: behind, splitSlash behind, hbytes, ?_, filterMap_of_trivial htrivial⟩
    rw [splitSlash_append_slash, hn]
    rfl

/-- **The end of a path is its last component**, and what is in front spells the others. -/
theorem EndsIn.components_eq {front : Path} (h : EndsIn p front n) :
    p.components = front.components ++ [.name n] := by
  obtain ⟨behind, trivials, hbytes, hbehind, hnothing⟩ := h.segments_behind
  have hname : (n :: trivials).filterMap Component.ofSegment? = [.name n] := by
    rw [List.filterMap_cons_some h.name.ofSegment?, hnothing]
  rcases h.front_ends with hempty | hslash
  · -- there is nothing in front
    have hfront : front.components = [] := by
      obtain ⟨bytes⟩ := front
      obtain rfl : bytes = [] := hempty
      rfl
    have hsegments : p.segments = n :: trivials := by
      rw [segments, hbytes, hempty, List.nil_append, hbehind]
    have hinner := inner_of_segments hsegments h.name.1 h.name.2.1
    rw [hinner.components_eq, hsegments, hname, hfront, List.nil_append]
  -- the empty segment behind the last slash is replaced by the name, and the first segment
  -- stays
  · obtain ⟨before, hbefore⟩ := List.getLast?_eq_some_iff.1 hslash
    obtain ⟨first, rest, hfirst⟩ := List.exists_cons_of_ne_nil (splitSlash_ne_nil before)
    have hfront : front.segments = first :: (rest ++ [[]]) := by
      rw [segments, hbefore, splitSlash_append_slash, hfirst]
      rfl
    have hsegments : p.segments = first :: (rest ++ n :: trivials) := by
      rw [segments, hbytes, hbefore, List.append_assoc, List.singleton_append,
        splitSlash_append_slash, hfirst, hbehind]
      rfl
    have hopens : p.firstComponent? first = front.firstComponent? first := by
      have habsolute : p.isAbsolute = front.isAbsolute := by
        rw [isAbsolute, isAbsolute, hbytes, hbefore]
        cases before <;> rfl
      rw [firstComponent?, firstComponent?, habsolute]
    have hend : ([[]] : List Name).filterMap Component.ofSegment? = [] := rfl
    rw [components_of_segments hsegments, components_of_segments hfront, hopens,
      List.filterMap_append, List.filterMap_append, hname, hend, List.append_nil,
      List.append_assoc]

/-- The last of the components that segments spell is that of the last segment that says
anything. -/
theorem exists_last_segment
    (h : segments.filterMap Component.ofSegment? = components ++ [.name n]) :
    ∃ before trivials, segments = before ++ n :: trivials ∧
      ∀ segment ∈ trivials, isTrivialSegment segment = true := by
  obtain ⟨before, behind, rfl, -, hbehind⟩ := List.filterMap_eq_append_iff.1 h
  obtain ⟨skipped, segment, trivials, rfl, -, hsegment, htrivials⟩ :=
    List.filterMap_eq_cons_iff.1 hbehind
  obtain ⟨rfl, -, -⟩ := ofSegment?_eq_name hsegment
  refine ⟨before ++ skipped, trivials, (List.append_assoc ..).symm, fun s hs => ?_⟩
  exact ofSegment?_eq_none_iff.1 (List.filterMap_eq_nil_iff.1 htrivials s hs)

/-- Where segments are joined, the bytes in front of one of them are none or end in a slash. -/
theorem exists_front_bytes (before behind : List Name) (hbehind : behind ≠ []) :
    ∃ front : List Byte, (front = [] ∨ front.getLast? = some slash) ∧
      joinSlash (before ++ behind) = front ++ joinSlash behind := by
  induction before with
  | nil => exact ⟨[], .inl rfl, rfl⟩
  | cons first before ih =>
    obtain ⟨front, hfront, hjoin⟩ := ih
    obtain ⟨second, rest, hrest⟩ :=
      List.exists_cons_of_ne_nil (List.append_ne_nil_of_right_ne_nil before hbehind)
    refine ⟨first ++ slash :: front, .inr ?_, ?_⟩
    · rw [List.getLast?_append_cons]
      rcases hfront with rfl | hlast
      · rfl
      · rw [List.getLast?_cons, hlast]
        rfl
    · rw [List.cons_append, hrest, joinSlash_cons_cons, ← hrest, hjoin, List.append_assoc]
      rfl

theorem firstComponent?_eq_name {first : Name}
    (h : p.firstComponent? first = some (.name n)) : first = n := by
  rw [firstComponent?] at h
  split at h
  · cases h
  · split at h
    · cases h
    · exact (ofSegment?_eq_name h).1

/-- The last component of a path is that of the last segment that says anything. -/
theorem exists_last_of_components (h : p.components = components ++ [.name n]) :
    ∃ before trivials, p.segments = before ++ n :: trivials ∧
      ∀ segment ∈ trivials, isTrivialSegment segment = true := by
  obtain ⟨first, rest, hsegments⟩ := List.exists_cons_of_ne_nil (splitSlash_ne_nil p.bytes)
  rw [components_of_segments hsegments] at h
  rw [segments, hsegments]
  rcases List.eq_nil_or_concat' (rest.filterMap Component.ofSegment?) with hrest |
    ⟨init, last, hrest⟩
  · -- the first segment is the only one that says anything
    rw [hrest, List.append_nil] at h
    have hfirst : p.firstComponent? first = some (.name n) := by
      have hmem : Component.name n ∈ (p.firstComponent? first).toList := h ▸ by simp
      exact Option.mem_toList.1 hmem
    refine ⟨[], rest, ?_, fun s hs => ?_⟩
    · rw [firstComponent?_eq_name hfirst]
      rfl
    · exact ofSegment?_eq_none_iff.1 (List.filterMap_eq_nil_iff.1 hrest s hs)
  · have hlast : last = .name n := by
      have hends := congrArg List.getLast? h
      rw [hrest, ← List.append_assoc, List.getLast?_concat, List.getLast?_concat] at hends
      exact Option.some.inj hends
    obtain ⟨before, trivials, rfl, htrivials⟩ := exists_last_segment (hlast ▸ hrest)
    exact ⟨first :: before, trivials, rfl, htrivials⟩

/-- A path whose last component is a name can be cut before that name. -/
theorem exists_endsIn (h : p.components = components ++ [.name n]) :
    ∃ front, EndsIn p front n := by
  obtain ⟨before, trivials, hsegments, htrivials⟩ := exists_last_of_components h
  obtain ⟨front, hfront, hjoin⟩ := exists_front_bytes before (n :: trivials) (List.cons_ne_nil _ _)
  have hbytes : p.bytes = front ++ joinSlash (n :: trivials) := by
    rw [← hjoin, ← hsegments, segments, joinSlash_splitSlash]
  have hname : IsName n := (spells_components p).isName (by rw [h]; simp)
  refine ⟨⟨front⟩, hname, hfront, ?_⟩
  -- behind the name the path ends, or a slash and trivial segments follow
  cases trivials with
  | nil => exact .inl hbytes
  | cons second rest =>
    refine .inr ⟨joinSlash (second :: rest), hbytes, ?_⟩
    rwa [splitSlash_joinSlash]
    intro segment hsegment
    have hmem : segment ∈ splitSlash p.bytes := by
      rw [← segments, hsegments]
      exact List.mem_append_right _ (List.mem_cons_of_mem _ hsegment)
    exact not_mem_of_mem_splitSlash hmem

/-- **The last component can be read from the end** of the bytes, without those in front. -/
theorem endsIn_iff :
    p.components = components ++ [.name n] ↔
      ∃ front, EndsIn p front n ∧ front.components = components := by
  constructor
  · intro h
    obtain ⟨front, hends⟩ := exists_endsIn h
    exact ⟨front, hends, List.append_cancel_right (hends.components_eq.symm.trans h)⟩
  · rintro ⟨front, hends, rfl⟩
    exact hends.components_eq

end Path

end Unimported
