/-
Joining paths, and taking a front off again.

A path that is joined to another one stands behind it, segment by segment and component by
component, whatever slashes and dots either is spelled with. So the components of the first can be
taken off the front, and what is left is the second path as it was spelled. A path that opens with
a slash or a dot would say something else in that place; `Path.Inner` are those that do not.
-/
import Unimported.Path.Basic
import Mathlib.Data.List.Basic

set_option autoImplicit false

namespace Unimported

open Text (Byte)

/-! ## Slashes

Cutting at slashes is by recursion on the bytes, and so are the proofs. There is always a
segment, possibly an empty one, to which a byte that is no slash is added in front. -/

theorem splitSlash_ne_nil (bytes : List Byte) : splitSlash bytes ≠ [] := by
  cases bytes with
  | nil => exact List.cons_ne_nil _ _
  | cons b rest =>
    rw [splitSlash]
    cases splitSlash rest with
    | nil => exact List.cons_ne_nil _ _
    | cons segment segments => by_cases h : b = slash <;> simp [h]

theorem splitSlash_cons_slash (bytes : List Byte) :
    splitSlash (slash :: bytes) = [] :: splitSlash bytes := by
  rw [splitSlash]
  cases h : splitSlash bytes with
  | nil => exact absurd h (splitSlash_ne_nil bytes)
  | cons segment segments => exact if_pos rfl

theorem splitSlash_cons_of_ne {b : Byte} (hb : b ≠ slash) {bytes segment : List Byte}
    {segments : List Name} (h : splitSlash bytes = segment :: segments) :
    splitSlash (b :: bytes) = (b :: segment) :: segments := by
  rw [splitSlash, h]
  exact if_neg hb

/-- Bytes are cut at a slash by cutting what stands on either side of it. -/
theorem splitSlash_append_slash (front behind : List Byte) :
    splitSlash (front ++ slash :: behind) = splitSlash front ++ splitSlash behind := by
  induction front with
  | nil => rw [List.nil_append, splitSlash_cons_slash]; rfl
  | cons b front ih =>
    rw [List.cons_append]
    by_cases hb : b = slash
    · rw [hb, splitSlash_cons_slash, splitSlash_cons_slash, ih, List.cons_append]
    · cases hfront : splitSlash front with
      | nil => exact absurd hfront (splitSlash_ne_nil front)
      | cons segment segments =>
        rw [hfront, List.cons_append] at ih
        rw [splitSlash_cons_of_ne hb hfront, splitSlash_cons_of_ne hb ih, List.cons_append]

theorem splitSlash_of_not_mem {bytes : List Byte} (h : slash ∉ bytes) :
    splitSlash bytes = [bytes] := by
  induction bytes with
  | nil => rfl
  | cons b bytes ih =>
    rw [List.mem_cons, not_or] at h
    exact splitSlash_cons_of_ne (Ne.symm h.1) (ih h.2)

/-- Segments are joined to the bytes that they were cut from. -/
theorem joinSlash_splitSlash (bytes : List Byte) : joinSlash (splitSlash bytes) = bytes := by
  induction bytes with
  | nil => rfl
  | cons b bytes ih =>
    cases h : splitSlash bytes with
    | nil => exact absurd h (splitSlash_ne_nil bytes)
    | cons segment segments =>
      rw [h] at ih
      -- a slash opens a new segment in front, any other byte joins the first one
      by_cases hb : b = slash
      · rw [hb, splitSlash_cons_slash, h, joinSlash, ih, List.nil_append]
        exact List.cons_ne_nil _ _
      · rw [splitSlash_cons_of_ne hb h]
        cases segments with
        | nil => rw [joinSlash] at ih ⊢; rw [ih]
        | cons next segments =>
          rw [joinSlash, List.cons_append] at *
          · rw [ih]
          all_goals exact List.cons_ne_nil _ _

/-- A byte other than the slash is in one of the segments. -/
theorem mem_splitSlash {b : Byte} {bytes : List Byte} (hb : b ≠ slash) (h : b ∈ bytes) :
    ∃ segment ∈ splitSlash bytes, b ∈ segment := by
  induction bytes with
  | nil => cases h
  | cons first bytes ih =>
    obtain ⟨segment, segments, hsegments⟩ := List.exists_cons_of_ne_nil (splitSlash_ne_nil bytes)
    rw [hsegments] at ih
    by_cases hfirst : first = slash
    · rw [hfirst, splitSlash_cons_slash, hsegments]
      obtain ⟨found, hfound, hmem⟩ := ih ((List.mem_cons.1 h).resolve_left (hfirst ▸ hb))
      exact ⟨found, List.mem_cons_of_mem _ hfound, hmem⟩
    · rw [splitSlash_cons_of_ne hfirst hsegments]
      rcases List.mem_cons.1 h with rfl | h
      · exact ⟨_, List.mem_cons_self, List.mem_cons_self⟩
      · obtain ⟨found, hfound, hmem⟩ := ih h
        rcases List.mem_cons.1 hfound with rfl | hfound
        · exact ⟨_, List.mem_cons_self, List.mem_cons_of_mem _ hmem⟩
        · exact ⟨found, List.mem_cons_of_mem _ hfound, hmem⟩

namespace Path

/-! ## Names

A name is a segment that stands for itself: neither empty, nor one or two dots, and without
a slash. What follows says so of each function on paths, so that none has to be unfolded for
a name. -/

/-- Bytes that can be a name in a directory: they say something as a segment, and they are not cut
by a slash. -/
def IsName (n : Name) : Prop := n ≠ [] ∧ n ≠ [dot] ∧ n ≠ [dot, dot] ∧ slash ∉ n

instance (n : Name) : Decidable (IsName n) := inferInstanceAs (Decidable (_ ∧ _))

variable {n : Name} {p q r : Path}

theorem IsName.segments (h : IsName n) : (Path.mk n).segments = [n] :=
  splitSlash_of_not_mem h.2.2.2

theorem IsName.ofSegment? (h : IsName n) : Component.ofSegment? n = some (.name n) := by
  rw [Component.ofSegment?, if_neg (not_or.2 ⟨h.1, h.2.1⟩), if_neg h.2.2.1]

theorem IsName.not_isTrivial (h : IsName n) : isTrivialSegment n = false := by
  simp [isTrivialSegment, h.1, h.2.1]

theorem IsName.not_isAbsolute (h : IsName n) : (Path.mk n).isAbsolute = false := by
  cases n with
  | nil => rfl
  | cons b n =>
    have hb : slash ≠ b := fun heq => h.2.2.2 (heq ▸ List.mem_cons_self)
    simpa [isAbsolute] using hb.symm

/-- A segment says nothing exactly if it is trivial. -/
theorem ofSegment?_eq_none_iff {segment : Name} :
    Component.ofSegment? segment = none ↔ isTrivialSegment segment = true := by
  rw [isTrivialSegment, Bool.or_eq_true, decide_eq_true_eq, decide_eq_true_eq,
    Component.ofSegment?]
  by_cases h : segment = [] ∨ segment = [dot]
  · rw [if_pos h]
    exact iff_of_true rfl h
  · rw [if_neg h]
    refine iff_of_false ?_ h
    split <;> exact Option.some_ne_none _

/-- A segment that stands for a name is that name. -/
theorem ofSegment?_eq_name{segment n : Name} (h : Component.ofSegment? segment = some (.name n)) :
    segment = n ∧ ¬ isTrivialSegment segment = true ∧ segment ≠ [dot, dot] := by
  have htrivial : ¬ isTrivialSegment segment = true := fun htrivial => by
    rw [ofSegment?_eq_none_iff.2 htrivial] at h
    cases h
  rw [Component.ofSegment?] at h
  split at h
  · cases h
  · split at h
    · cases h
    · exact ⟨Component.name.inj (Option.some.inj h), htrivial, ‹_›⟩

/-! ## Segments of joined paths

Joining puts a slash between two paths unless the first ends in one. In segments this makes
one difference, stated in `segments_join`: an empty segment at the end of the first path is
lost. What else is said of joined paths is drawn from there. -/

/-- Joining leaves an absolute path absolute, and a relative one relative. -/
theorem isAbsolute_join (hp : p.bytes ≠ []) (hq : q.isAbsolute = false) :
    (p.join q).isAbsolute = p.isAbsolute := by
  obtain ⟨b, bytes, hbytes⟩ := List.exists_cons_of_ne_nil hp
  rw [join, if_neg (by simp [hq])]
  split <;> simp [isAbsolute, hbytes]

theorem join_bytes_ne_nil (hp : p.bytes ≠ []) (hq : q.isAbsolute = false) :
    (p.join q).bytes ≠ [] := by
  rw [join, if_neg (by simp [hq])]
  split <;> simp [hp]

/-- **Segments of joined paths.** The segments of the second path stand behind those of the first;
an empty one at the end of the first is lost. -/
theorem segments_join (hp : p.bytes ≠ []) (hq : q.isAbsolute = false) :
    ∃ first front, (p.segments = first :: front ∨ p.segments = first :: (front ++ [[]])) ∧
      (p.join q).segments = first :: (front ++ q.segments) := by
  rw [join, if_neg (by simp [hq])]
  by_cases hslash : p.bytes.getLast? = some slash
  · -- the path ends in a slash, which is not doubled
    obtain ⟨before, hbytes⟩ := List.getLast?_eq_some_iff.1 hslash
    obtain ⟨first, front, hfront⟩ := List.exists_cons_of_ne_nil (splitSlash_ne_nil before)
    refine ⟨first, front, .inr ?_, ?_⟩
    · rw [segments, hbytes, splitSlash_append_slash, hfront]
      rfl
    · rw [if_pos (.inr hslash), segments, hbytes, List.append_assoc, List.singleton_append,
        splitSlash_append_slash, hfront]
      rfl
  · obtain ⟨first, front, hfront⟩ := List.exists_cons_of_ne_nil (splitSlash_ne_nil p.bytes)
    refine ⟨first, front, .inl hfront, ?_⟩
    rw [if_neg (not_or.2 ⟨hp, hslash⟩), segments, splitSlash_append_slash, hfront]
    rfl

theorem join_assoc (hq : q.bytes ≠ []) (hq' : q.isAbsolute = false) (hr : r.isAbsolute = false) :
    (p.join q).join r = p.join (q.join r) := by
  have hqr : (q.join r).isAbsolute = false := by rw [isAbsolute_join hq hr, hq']
  have hlast : ∀ front : List Byte, (front ++ q.bytes).getLast? = q.bytes.getLast? := by
    intro front
    rw [List.getLast?_append_of_ne_nil _ hq]
  have hlast' : (slash :: q.bytes).getLast? = q.bytes.getLast? := hlast [slash]
  simp only [join, hq', hr, Bool.false_eq_true, if_false] at hqr ⊢
  -- Whether a slash is put in depends on how either front ends, and neither end changes by
  -- what is joined behind.
  by_cases hend : p.bytes = [] ∨ p.bytes.getLast? = some slash <;>
    by_cases hmid : q.bytes.getLast? = some slash <;>
    simp_all

theorem not_mem_join {b : Byte} (hb : b ≠ slash) (hp : b ∉ p.bytes) (hq : b ∉ q.bytes) :
    b ∉ (p.join q).bytes := by
  rw [join]
  split
  · exact hq
  · split <;> simp [hp, hq, hb]

/-- A byte that is neither slash nor dot is in one of the names of a path. -/
theorem not_mem_of_names {b : Byte} (hslash : b ≠ slash) (hdot : b ≠ dot) {names : List Name}
    (hnames : q.segments.filterMap Component.ofSegment? = names.map .name)
    (h : ∀ n ∈ names, b ∉ n) : b ∉ q.bytes := by
  intro hmem
  obtain ⟨segment, hsegment, hmem⟩ := mem_splitSlash hslash hmem
  -- the segment that has the byte is trivial, and then it is a dot, or it is a name
  cases hcomponent : Component.ofSegment? segment with
  | none =>
    have htrivial := ofSegment?_eq_none_iff.1 hcomponent
    rw [isTrivialSegment, Bool.or_eq_true, decide_eq_true_eq, decide_eq_true_eq] at htrivial
    rcases htrivial with rfl | rfl
    · cases hmem
    · exact hdot (List.mem_singleton.1 hmem)
  | some component =>
    have hcomponents : component ∈ names.map Component.name :=
      hnames ▸ List.mem_filterMap.2 ⟨segment, hsegment, hcomponent⟩
    obtain ⟨name, hname, rfl⟩ := List.mem_map.1 hcomponents
    obtain ⟨rfl, -, -⟩ := ofSegment?_eq_name hcomponent
    exact h segment hname hmem

/-! ## Components of joined paths

The components are read off the segments, but the first segment is read otherwise: it may
stand for the root or for a leading dot. A path that is `Inner` has no such segment in
front, so its components are the same wherever it stands. -/

/-- A path that says within another one what it says by itself: it opens neither with a slash nor
with a dot. -/
structure Inner (q : Path) : Prop where
  relative : q.isAbsolute = false
  noDot : q.segments.head? ≠ some [dot]

theorem isAbsolute_of_segments {first : Name} {rest : List Name}
    (h : p.segments = first :: rest) (hne : first ≠ []) : p.isAbsolute = false := by
  obtain ⟨bytes⟩ := p
  cases bytes with
  | nil => rfl
  | cons b bytes =>
    have hb : b ≠ slash := by
      rintro rfl
      rw [segments, splitSlash_cons_slash] at h
      exact hne (List.cons.inj h).1.symm
    simpa [isAbsolute] using hb

/-- A path that opens with a segment of its own says the same within another one. -/
theorem inner_of_segments {first : Name} {rest : List Name} (h : p.segments = first :: rest)
    (hempty : first ≠ []) (hdot : first ≠ [dot]) : Inner p := by
  refine ⟨isAbsolute_of_segments h hempty, ?_⟩
  rw [h]
  exact fun heq => hdot (Option.some.inj heq)

theorem IsName.inner (h : IsName n) : Inner ⟨n⟩ := inner_of_segments h.segments h.1 h.2.1

theorem Inner.components_eq (h : Inner q) :
    q.components = q.segments.filterMap Component.ofSegment? := by
  unfold components
  cases hq : q.segments with
  | nil => rfl
  | cons first rest =>
    have hfirst : first ≠ [dot] := fun heq => h.noDot (by rw [hq, heq]; rfl)
    have hcomponent : q.firstComponent? first = Component.ofSegment? first := by
      rw [firstComponent?, if_neg (by simp [h.relative]), if_neg hfirst]
    simp only [hcomponent, List.filterMap_cons]
    cases Component.ofSegment? first <;> rfl

/-- The components of a path, by its first segment and the others. -/
theorem components_of_segments {first : Name} {rest : List Name}
    (h : p.segments = first :: rest) :
    p.components
      = (p.firstComponent? first).toList ++ rest.filterMap Component.ofSegment? := by
  rw [components, h]

/-- A joined path begins with the segments of the first path, and opens like it. -/
theorem join_front (hp : p.bytes ≠ []) (hq : q.isAbsolute = false) :
    ∃ first front rest, p.segments = first :: rest ∧
      p.components = (p.firstComponent? first).toList ++ front.filterMap Component.ofSegment? ∧
      (p.join q).segments = first :: (front ++ q.segments) ∧
      (p.join q).firstComponent? first = p.firstComponent? first := by
  obtain ⟨first, front, hsegments, hjoin⟩ := segments_join hp hq
  have hfirst : (p.join q).firstComponent? first = p.firstComponent? first := by
    rw [firstComponent?, firstComponent?, isAbsolute_join hp hq]
  -- an empty segment that is lost stood for no component
  rcases hsegments with hsegments | hsegments
  · exact ⟨first, front, front, hsegments, components_of_segments hsegments, hjoin, hfirst⟩
  · refine ⟨first, front, front ++ [[]], hsegments, ?_, hjoin, hfirst⟩
    rw [components_of_segments hsegments, List.filterMap_append]
    exact congrArg _ (List.append_nil _)

/-- **Components of joined paths.** The components of an inner path stand behind those of the
first. -/
theorem components_join (hp : p.bytes ≠ []) (hq : Inner q) :
    (p.join q).components = p.components ++ q.components := by
  obtain ⟨first, front, -, -, hcomponents, hjoin, hfirst⟩ := join_front hp hq.relative
  rw [components_of_segments hjoin, hfirst, hcomponents, hq.components_eq, List.filterMap_append,
    List.append_assoc]

theorem IsName.components (h : IsName n) : (Path.mk n).components = [.name n] := by
  rw [h.inner.components_eq, h.segments, List.filterMap_cons, h.ofSegment?]
  rfl

/-! ## Names on the way

A walk comes to a file by joining one name after another, so `extend` is a fold and its
lemmas are inductions on the names, with the path generalised. -/

/-- A path, joined with one name after the other. -/
def extend (p : Path) (names : List Name) : Path := names.foldl (fun p n => p.join ⟨n⟩) p

@[simp] theorem extend_nil (p : Path) : p.extend [] = p := rfl

theorem extend_append (p : Path) (names names' : List Name) :
    p.extend (names ++ names') = (p.extend names).extend names' := List.foldl_append

theorem extend_concat (p : Path) (names : List Name) (n : Name) :
    p.extend (names ++ [n]) = (p.extend names).join ⟨n⟩ := extend_append p names [n]

theorem extend_bytes_ne_nil {names : List Name} (hp : p.bytes ≠ [])
    (h : ∀ n ∈ names, IsName n) : (p.extend names).bytes ≠ [] := by
  induction names generalizing p with
  | nil => exact hp
  | cons n names ih =>
    rw [List.forall_mem_cons] at h
    exact ih (join_bytes_ne_nil hp h.1.not_isAbsolute) h.2

/-- The names on the way stand behind the components of the path. -/
theorem components_extend {names : List Name} (hp : p.bytes ≠ []) (h : ∀ n ∈ names, IsName n) :
    (p.extend names).components = p.components ++ names.map .name := by
  induction names generalizing p with
  | nil => exact (List.append_nil _).symm
  | cons n names ih =>
    rw [List.forall_mem_cons] at h
    calc ((p.join ⟨n⟩).extend names).components
        = (p.join ⟨n⟩).components ++ names.map .name :=
          ih (join_bytes_ne_nil hp h.1.not_isAbsolute) h.2
      _ = p.components ++ (n :: names).map .name := by
          rw [components_join hp h.1.inner, h.1.components, List.append_assoc]
          rfl

/-- Names may be joined to a path before or after it is joined to another one. -/
theorem join_extend {names : List Name} (hq : q.bytes ≠ []) (hq' : q.isAbsolute = false)
    (h : ∀ n ∈ names, IsName n) : (p.join q).extend names = p.join (q.extend names) := by
  induction names generalizing q with
  | nil => rfl
  | cons n names ih =>
    rw [List.forall_mem_cons] at h
    have hn := h.1.not_isAbsolute
    calc ((p.join q).join ⟨n⟩).extend names
        = (p.join (q.join ⟨n⟩)).extend names := by rw [join_assoc hq hq' hn]
      _ = p.join ((q.join ⟨n⟩).extend names) :=
          ih (join_bytes_ne_nil hq hn) (by rw [isAbsolute_join hq hn, hq']) h.2

/-- A path that is joined with names ends in the last of them. -/
theorem last_extend {names : List Name} (hp : p.bytes ≠ []) (hne : names ≠ [])
    (h : ∀ n ∈ names, IsName n) :
    ∀ last ∈ (p.extend names).segments.getLast?, isTrivialSegment last = false := by
  intro last hlast
  obtain ⟨front, n, rfl⟩ := (List.eq_nil_or_concat' names).resolve_left hne
  rw [List.forall_mem_append, List.forall_mem_singleton] at h
  obtain ⟨hfront, hn⟩ := h
  obtain ⟨first, before, -, hjoin⟩ :=
    segments_join (extend_bytes_ne_nil hp hfront) hn.not_isAbsolute
  rw [extend_concat, hjoin, hn.segments, ← List.cons_append, List.getLast?_concat] at hlast
  exact Option.some.inj hlast ▸ hn.not_isTrivial

/-! ## Taking a front off

Components are dropped from the front of the segments, and trivial segments are passed over
on the way. Since the components of the first path are those of its segments, all of these
go, up to trivial ones at the end; the trimming at the end takes these as well. The first
segment is a case apart, as above. -/

/-- A trivial segment does not stand for the next component, and is passed over. -/
theorem dropComponents?_trivial {segment : Name} (h : isTrivialSegment segment = true)
    (component : Component) (components : List Component) (segments : List Name) :
    dropComponents? (component :: components) (segment :: segments)
      = dropComponents? (component :: components) segments := by
  rw [dropComponents?, dropComponents?, List.dropWhile_cons_of_pos h]

theorem dropComponents?_cons {segment : Name} {component : Component}
    (h : Component.ofSegment? segment = some component) (components : List Component)
    (segments : List Name) :
    dropComponents? (component :: components) (segment :: segments)
      = dropComponents? components segments := by
  have htrivial : ¬ isTrivialSegment segment = true := fun heq => by
    rw [ofSegment?_eq_none_iff.2 heq] at h
    cases h
  rw [dropComponents?, List.dropWhile_cons_of_neg htrivial]
  exact if_pos h

/-- Segments are dropped with the components that they spell. Trivial ones at the end of them spell
none, and stay. -/
theorem dropComponents?_append (front behind : List Name) :
    ∃ rest, (∀ segment ∈ rest, isTrivialSegment segment = true) ∧
      dropComponents? (front.filterMap Component.ofSegment?) (front ++ behind)
        = some (rest ++ behind) := by
  -- By induction on the segments in front. `rest` are the trivial ones at their end, which no
  -- component asks for.
  induction front with
  | nil => exact ⟨[], by simp, rfl⟩
  | cons segment front ih =>
    obtain ⟨rest, hrest, hdrop⟩ := ih
    rw [List.cons_append, List.filterMap_cons]
    cases hsegment : Component.ofSegment? segment with
    | some component => exact ⟨rest, hrest, by rw [dropComponents?_cons hsegment, hdrop]⟩
    | none =>
      have htrivial := ofSegment?_eq_none_iff.1 hsegment
      cases hcomponents : front.filterMap Component.ofSegment? with
      | nil =>
        -- no component is left, so the segments before the second part are all trivial
        refine ⟨segment :: front, ?_, rfl⟩
        refine List.forall_mem_cons.2 ⟨htrivial, fun next hnext => ?_⟩
        exact ofSegment?_eq_none_iff.1 (List.filterMap_eq_nil_iff.1 hcomponents next hnext)
      | cons component components =>
        rw [hcomponents] at hdrop
        exact ⟨rest, hrest, by rw [dropComponents?_trivial htrivial, hdrop]⟩

theorem trimSegments_append {trivials : List Name}
    (h : ∀ segment ∈ trivials, isTrivialSegment segment = true) (segments : List Name) :
    trimSegments (trivials ++ segments) = trimSegments segments := by
  rw [trimSegments, trimSegments, List.dropWhile_append_of_pos h]

/-- Segments of which neither the first nor the last is trivial. -/
structure Trimmed (segments : List Name) : Prop where
  first : ∀ segment ∈ segments.head?, isTrivialSegment segment = false
  last : ∀ segment ∈ segments.getLast?, isTrivialSegment segment = false

theorem Trimmed.trimSegments_eq {segments : List Name} (h : Trimmed segments) :
    trimSegments segments = segments := by
  have hdrop : ∀ l : List Name, (∀ segment ∈ l.head?, isTrivialSegment segment = false) →
      l.dropWhile isTrivialSegment = l := by
    intro l hl
    cases l with
    | nil => rfl
    | cons segment l =>
      exact List.dropWhile_cons_of_neg (by rw [hl segment rfl]; exact Bool.false_ne_true)
  have hlast : ∀ segment ∈ segments.reverse.head?, isTrivialSegment segment = false := by
    rw [List.head?_reverse]
    exact h.last
  rw [trimSegments, hdrop segments h.first, hdrop segments.reverse hlast, List.reverse_reverse]

/-- What the first segment of a path that is not empty stands for: the root, the leading dot, or
what it would stand for anywhere. -/
theorem firstComponent?_cases {first : Name} {rest : List Name} (hp : p.bytes ≠ [])
    (h : p.segments = first :: rest) :
    p.firstComponent? first = some .root ∨ p.firstComponent? first = some .here ∨
      ∃ component, p.firstComponent? first = some component ∧
        Component.ofSegment? first = some component ∧ p.isAbsolute = false ∧ first ≠ [dot] := by
  by_cases habsolute : p.isAbsolute = true
  · exact .inl (if_pos habsolute)
  · rw [firstComponent?, if_neg habsolute]
    by_cases hdot : first = [dot]
    · exact .inr (.inl (if_pos hdot))
    · rw [if_neg hdot]
      refine .inr (.inr ?_)
      cases hfirst : Component.ofSegment? first with
      | some component =>
        exact ⟨component, rfl, rfl, Bool.not_eq_true _ ▸ habsolute, hdot⟩
      | none =>
        -- an empty first segment opens the empty path or an absolute one
        exfalso
        have htrivial := ofSegment?_eq_none_iff.1 hfirst
        rw [isTrivialSegment, Bool.or_eq_true, decide_eq_true_eq, decide_eq_true_eq] at htrivial
        have hempty : first = [] := htrivial.resolve_right hdot
        obtain ⟨b, bytes, hbytes⟩ := List.exists_cons_of_ne_nil hp
        have hb : b ≠ slash := fun heq => habsolute (by simp [isAbsolute, hbytes, heq])
        obtain ⟨segment, others, hcut⟩ := List.exists_cons_of_ne_nil (splitSlash_ne_nil bytes)
        rw [segments, hbytes, splitSlash_cons_of_ne hb hcut, hempty] at h
        cases h

theorem components_ne_nil (hp : p.bytes ≠ []) : p.components ≠ [] := by
  obtain ⟨first, rest, hsegments⟩ := List.exists_cons_of_ne_nil (splitSlash_ne_nil p.bytes)
  rw [components_of_segments hsegments]
  rcases firstComponent?_cases hp hsegments with h | h | ⟨component, h, -⟩ <;> simp [h]

/-- Within a path no segment stands for the root or for a leading dot. -/
theorem ofSegment?_ne_lead (segment : Name) {component : Component}
    (h : Component.ofSegment? segment = some component) :
    ¬ (component = .root ∨ component = .here) := by
  rw [Component.ofSegment?] at h
  split at h
  · cases h
  · split at h
    · cases h
      simp
    · cases h
      simp

/-- **The front comes off.** What is left of a joined path is the second one, less the trivial
segments at its ends. -/
theorem stripBase?_join (hp : p.bytes ≠ []) (hq : q.isAbsolute = false) :
    (p.join q).stripBase? p = some ⟨joinSlash (trimSegments q.segments)⟩ := by
  obtain ⟨first, front, rest, hsegments, hcomponents, hjoin, hfirst⟩ := join_front hp hq
  obtain ⟨trivials, htrivials, hdrop⟩ := dropComponents?_append front q.segments
  have hleft : trimSegments (trivials ++ q.segments) = trimSegments q.segments :=
    trimSegments_append htrivials _
  rw [stripBase?, hcomponents, hjoin]
  -- A root or a leading dot is dropped by itself. Any other first segment is dropped like
  -- those behind it, and must not be taken for a lead.
  rcases firstComponent?_cases hp hsegments with hroot | hhere | ⟨component, hcomponent, hsegment,
    habsolute, hdot⟩
  · rw [hroot] at hfirst
    simp [hroot, hfirst, hdrop, hleft]
  · rw [hhere] at hfirst
    simp [hhere, hfirst, hdrop, hleft]
  · have hplain := ofSegment?_ne_lead first hsegment
    have hopen : ¬ ((p.join q).isAbsolute = true ∨ first = [dot]) := by
      rw [isAbsolute_join hp hq, habsolute]
      simpa using hdot
    rw [hcomponent]
    simp only [Option.toList_some, List.singleton_append, if_neg hplain, if_neg hopen,
      dropComponents?_cons hsegment, hdrop, Option.map_some, hleft]

/-- A path whose segments need no trimming is left as it was spelled. -/
theorem relativeTo_join (hp : p.bytes ≠ []) (hq : q.isAbsolute = false)
    (htrimmed : Trimmed q.segments) : (p.join q).relativeTo p = q := by
  rw [relativeTo, stripBase?_join hp hq, htrimmed.trimSegments_eq, segments, joinSlash_splitSlash]
  rfl

/-- Seen from the empty path, a path is what it is. -/
theorem relativeTo_nil (p : Path) : p.relativeTo ⟨[]⟩ = p := rfl

/-! ## Paths made of names

What is asked of targets and of what is found below them, gathered in one structure: all
components are names, so the path is not absolute and opens with neither slash nor dot. -/

/-- The names among the components of a path. -/
def names (p : Path) : List Name := p.components.filterMap Component.name?

/-- A path all of whose components are names; there is at least one. -/
structure Named (q : Path) (names : List Name) : Prop where
  components : q.components = names.map .name
  ne_nil : names ≠ []

section Named

variable {names names' : List Name}

theorem Named.names_eq (h : Named q names) : q.names = names := by
  rw [Path.names, h.components, List.filterMap_map]
  exact List.filterMap_some

theorem Named.bytes_ne_nil (h : Named q names) : q.bytes ≠ [] := by
  intro hbytes
  have hcomponents : q.components = [] := by
    obtain ⟨bytes⟩ := q
    obtain rfl : bytes = [] := hbytes
    rfl
  exact h.ne_nil (List.map_eq_nil_iff.1 (h.components.symm.trans hcomponents))

/-- A path made of names opens with a name. -/
theorem Named.opens (h : Named q names) {first : Name} {rest : List Name}
    (hsegments : q.segments = first :: rest) :
    q.isAbsolute = false ∧ isTrivialSegment first = false := by
  obtain ⟨name, names, rfl⟩ := List.exists_cons_of_ne_nil h.ne_nil
  have hcomponents := (components_of_segments hsegments).symm.trans h.components
  rcases firstComponent?_cases h.bytes_ne_nil hsegments with hroot | hhere |
    ⟨component, -, hsegment, habsolute, -⟩
  · rw [hroot] at hcomponents
    cases hcomponents
  · rw [hhere] at hcomponents
    cases hcomponents
  · refine ⟨habsolute, Bool.eq_false_iff.2 fun htrivial => ?_⟩
    rw [ofSegment?_eq_none_iff.2 htrivial] at hsegment
    cases hsegment

theorem Named.inner (h : Named q names) : Inner q := by
  obtain ⟨first, rest, hsegments⟩ := List.exists_cons_of_ne_nil (splitSlash_ne_nil q.bytes)
  obtain ⟨hrelative, htrivial⟩ := h.opens hsegments
  refine ⟨hrelative, fun hdot => ?_⟩
  rw [segments, hsegments] at hdot
  obtain rfl : first = [dot] := Option.some.inj hdot
  exact Bool.noConfusion htrivial

/-- The segments that say something are the names. -/
theorem Named.filterMap_segments (h : Named q names) :
    q.segments.filterMap Component.ofSegment? = names.map .name := by
  rw [← h.inner.components_eq, h.components]

theorem Named.extend (h : Named q names) (hnames : ∀ n ∈ names', IsName n) :
    Named (q.extend names') (names ++ names') := by
  refine ⟨?_, List.append_ne_nil_of_left_ne_nil h.ne_nil _⟩
  rw [components_extend h.bytes_ne_nil hnames, h.components, List.map_append]

/-- A path made of names that ends in one as it is spelled needs no trimming. -/
theorem Named.trimmed_extend (h : Named q names) (hne : names' ≠ [])
    (hnames : ∀ n ∈ names', IsName n) : Trimmed (q.extend names').segments := by
  refine ⟨fun first hfirst => ?_, fun last hlast => ?_⟩
  · obtain ⟨rest, hsegments⟩ := List.head?_eq_some_iff.1 hfirst
    exact ((h.extend hnames).opens hsegments).2
  · exact last_extend h.bytes_ne_nil hne hnames last hlast

end Named

end Path

end Unimported
