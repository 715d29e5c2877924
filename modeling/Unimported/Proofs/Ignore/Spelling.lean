/-
What ignore rules see of a path below the start of a search.

Rules are told the path from the directory of their file. It is found by taking bytes off the front
of a path, after one dot and slash at the front of either has been dropped. From most starts that
leaves the names on the way and nothing of how the start was spelled; such starts are called
steady. The others are the working directory, spelled as a dot, and starts where a second dot and
slash follow the first. Two spellings of a steady start are judged alike all the way down.
-/
import Unimported.Ignore.Level
import Unimported.Proofs.Disk.Spelling
import Unimported.Proofs.Path.Order
import Mathlib.Data.List.Forall2
import Mathlib.Data.List.Infix

set_option autoImplicit false

namespace Unimported.Ignore

open Text (Byte)
open Unimported.Path (IsName)

variable {p q : Path} {names : List Name}

/-! ## Steady starts

The rules take off bytes, so what they do to a path below depends on how the start is
spelled. A steady start is one whose bytes stand in front of all paths below it, after the
opening dot and slash of both is gone. `exists_seen` names what is left of the start then,
and the lemmas behind it do not look at dots again. -/

/-- A path whose bytes can be taken off the front of the paths below it. -/
structure Steady (p : Path) : Prop where
  nonempty : p.bytes ≠ []
  /-- It is not the working directory by its name. -/
  notHere : p.components ≠ [.here]
  /-- At most one dot and slash stands at its front. -/
  onceHere : ¬ [dot, slash, dot, slash] <+: p.bytes

theorem withoutHere_of_not_prefix {bytes : List Byte} (h : ¬ [dot, slash] <+: bytes) :
    withoutHere bytes = bytes := by
  rw [withoutHere, without, if_neg (by rwa [List.isPrefixOf_iff_prefix])]

/-- How a path spells the working directory. -/
theorem bytes_of_here (h : p.components = [.here]) :
    p.bytes = [dot] ∨ [dot, slash] <+: p.bytes := by
  have hspells := Path.spells_components p
  rw [h] at hspells
  cases hspells with
  | @here segments _ h =>
    cases segments with
    | nil => exact .inl rfl
    | cons s segments => exact .inr ⟨joinSlash (s :: segments), rfl⟩
  | relative hempty hdot h =>
    cases h with
    | nothing htrivial h => exact absurd htrivial (not_or.2 ⟨hempty, hdot⟩)

/-- What is below a path opens with its bytes. -/
theorem prefix_opening (p : Path) (behind : List Byte) : p.bytes <+: p.opening ++ behind := by
  rw [Path.opening]
  split
  · exact List.prefix_append _ _
  · rw [List.append_assoc]
    exact List.prefix_append _ _

/-- What stands in front of the names below a path opens like the path, unless it is as short as
what one looks for. -/
theorem prefix_of_prefix_opening {front behind : List Byte} (h : front <+: p.opening ++ behind) :
    front <+: p.bytes ∨ p.bytes <+: front :=
  List.prefix_or_prefix_of_prefix h (prefix_opening p behind)

namespace Steady

/-- Paths below a steady one open with a dot and a slash only if it does, and then once. -/
theorem opening (h : Steady p) (behind : List Byte) :
    (¬ [dot, slash, dot, slash] <+: p.opening ++ behind) ∧
      ([dot, slash] <+: p.opening ++ behind → [dot, slash] <+: p.bytes) := by
  -- the start is none of the few paths that are as short as two opening dots
  have hshort : ¬ p.bytes <+: [dot, slash, dot, slash] := by
    rw [← List.mem_inits]
    intro hmem
    have hcases : p.bytes = [] ∨ p.bytes = [dot] ∨ p.bytes = [dot, slash] ∨
        p.bytes = [dot, slash, dot] ∨ p.bytes = [dot, slash, dot, slash] := by
      simpa [List.inits] using hmem
    obtain ⟨hnonempty, hhere, honce⟩ := h
    obtain ⟨bytes⟩ := p
    rcases hcases with hbytes | hbytes | hbytes | hbytes | hbytes <;> obtain rfl := hbytes
    · exact hnonempty rfl
    · exact hhere (by decide)
    · exact hhere (by decide)
    · exact hhere (by decide)
    · exact honce (List.prefix_refl _)
  refine ⟨fun hprefix => ?_, fun hprefix => ?_⟩
  · exact (prefix_of_prefix_opening hprefix).elim h.onceHere hshort
  · refine (prefix_of_prefix_opening hprefix).resolve_right fun hbytes => hshort ?_
    exact hbytes.trans ⟨[dot, slash], rfl⟩

/-- What is below a steady path is steady. -/
theorem extend (h : Steady p) (hnames : ∀ n ∈ names, IsName n) : Steady (p.extend names) := by
  by_cases hne : names = []
  · rw [hne, Path.extend_nil]
    exact h
  · refine ⟨Path.extend_bytes_ne_nil h.nonempty hnames, ?_, ?_⟩
    · rw [Path.components_extend h.nonempty hnames]
      intro hcomponents
      rcases List.append_eq_singleton_iff.1 hcomponents with ⟨hp, -⟩ | ⟨-, hmap⟩
      · exact Path.components_ne_nil h.nonempty hp
      · exact hne (List.map_eq_nil_iff.1 hmap)
    · rw [Path.bytes_extend h.nonempty hne hnames]
      exact (h.opening _).1

/-- **The bytes that are taken off** stand in front of all paths below, and none of them is an
opening dot. -/
theorem exists_seen (h : Steady p) :
    ∃ q : Path, withoutHere p.bytes = q.bytes ∧ q.bytes ≠ [] ∧ q.components ≠ [.here] ∧
      ∀ behind, withoutHere (p.opening ++ behind) = q.opening ++ behind ∧
        withoutHere (q.opening ++ behind) = q.opening ++ behind := by
  -- one opening dot is dropped, if there is one; a second one there is not
  by_cases hprefix : [dot, slash] <+: p.bytes
  · obtain ⟨bytes⟩ := p
    obtain ⟨rest, rfl⟩ := hprefix
    have hne : rest ≠ [] := by
      rintro rfl
      exact h.notHere (by decide)
    have hopening : Path.opening ⟨[dot, slash] ++ rest⟩ = [dot, slash] ++ Path.opening ⟨rest⟩ := by
      rw [Path.opening, Path.opening, List.getLast?_append_of_ne_nil _ hne]
      split <;> rfl
    refine ⟨⟨rest⟩, rfl, hne, fun hhere => ?_, fun behind => ⟨by rw [hopening]; rfl, ?_⟩⟩
    · -- the path would open with a second dot
      rcases bytes_of_here hhere with rfl | ⟨more, rfl⟩
      · exact h.notHere (by decide)
      · exact h.onceHere ⟨more, rfl⟩
    · apply withoutHere_of_not_prefix
      rintro ⟨more, hmore⟩
      refine (h.opening behind).1 ⟨more, ?_⟩
      rw [hopening, List.append_assoc, ← hmore]
      rfl
  · refine ⟨p, withoutHere_of_not_prefix hprefix, h.nonempty, h.notHere, fun behind => ?_⟩
    have hopening := withoutHere_of_not_prefix (mt (h.opening behind).2 hprefix)
    exact ⟨hopening, hopening⟩

end Steady

/-! ## What rules see

With the bytes of the start taken off, and the slash behind them, the names on the way are
left, joined by slashes. This holds of the level of a directory and of the absolute path
that the levels above are told. -/

/-- A list of names is spelled without a slash at its front. -/
theorem without_joinSlash (hne : names ≠ []) (hnames : ∀ n ∈ names, IsName n) :
    without [slash] (joinSlash names) = joinSlash names := by
  obtain ⟨n, rest, rfl⟩ := List.exists_cons_of_ne_nil hne
  have hn := hnames n List.mem_cons_self
  have hfront : ∃ behind, joinSlash (n :: rest) = n ++ behind := by
    cases rest with
    | nil => exact ⟨[], (List.append_nil n).symm⟩
    | cons next rest => exact ⟨_, joinSlash_cons_cons n next rest⟩
  obtain ⟨behind, hbehind⟩ := hfront
  obtain ⟨b, bytes, rfl⟩ := List.exists_cons_of_ne_nil hn.1
  have hb : slash ≠ b := fun heq => hn.2.2.2 (heq ▸ List.mem_cons_self)
  rw [without, hbehind, if_neg]
  simpa [List.isPrefixOf] using hb

/-- The bytes of a path are taken off those of a path below, and the slash between them too. -/
theorem without_drop_opening (q : Path) (hne : names ≠ []) (hnames : ∀ n ∈ names, IsName n) :
    without [slash] ((q.opening ++ joinSlash names).drop q.bytes.length) = joinSlash names := by
  rw [Path.opening]
  split
  · rw [List.drop_left, without_joinSlash hne hnames]
  · rw [List.append_assoc, List.drop_left]
    rfl

/-- **A level is told the names behind its directory.** -/
theorem Level.relative_extend (l : Level) (h : Steady l.base) (hne : names ≠ [])
    (hnames : ∀ n ∈ names, IsName n) :
    l.relative (withoutHere (l.base.extend names).bytes) = joinSlash names := by
  obtain ⟨q, hq, hempty, hhere, hseen⟩ := h.exists_seen
  obtain ⟨honce, htwice⟩ := hseen (joinSlash names)
  have hslash : (q.opening ++ joinSlash names).contains slash = true :=
    List.contains_iff_mem.2
      (List.mem_append_left _ (List.mem_of_mem_getLast? q.getLast?_opening))
  -- neither of the cases in which nothing is taken off applies
  have hother : ¬ ((Path.mk q.bytes).same herePath = true ∨
      (!(q.opening ++ joinSlash names).contains slash) = true) := by
    rw [hslash]
    rintro (hsame | hfalse)
    · exact hhere (Path.same_iff.1 hsame)
    · cases hfalse
  rw [Path.bytes_extend h.nonempty hne hnames, honce, Level.relative, htwice, hq]
  simp only [if_neg hother, if_pos (List.isPrefixOf_iff_prefix.2 (prefix_opening q _))]
  exact without_drop_opening q hne hnames

/-- **The absolute path** stands for the names behind the start of the search. -/
theorem Levels.absolute_extend (l : Levels) (h : Steady l.start) (hne : names ≠ [])
    (hnames : ∀ n ∈ names, IsName n) :
    l.absolute (withoutHere (l.start.extend names).bytes)
      = (l.absoluteStart.join ⟨joinSlash names⟩).bytes := by
  obtain ⟨q, hq, hempty, hhere, hseen⟩ := h.exists_seen
  have hsame : ¬ l.start.same herePath = true := fun hsame =>
    h.notHere (Path.same_iff.1 hsame)
  have htaken : without q.bytes (q.opening ++ joinSlash names)
      = (q.opening ++ joinSlash names).drop q.bytes.length :=
    if_pos (List.isPrefixOf_iff_prefix.2 (prefix_opening q _))
  rw [Path.bytes_extend h.nonempty hne hnames, (hseen _).1, Levels.absolute, if_neg hsame, hq,
    htaken, without_drop_opening q hne hnames]

/-! ## Levels that judge alike

A verdict is looked for level by level, and up to the innermost repository for some of the
rules. If the levels agree one by one, so do all verdicts. -/

/-- Two levels, each with a path, give the same verdicts. -/
structure Agree (v v' : Level × List Byte) : Prop where
  isRepository : v.1.isRepository = v'.1.isRepository
  always : ∀ isDirectory, v.1.verdict? v.1.always v.2 isDirectory
    = v'.1.verdict? v'.1.always v'.2 isDirectory
  versioned : ∀ isDirectory, v.1.verdict? v.1.versioned v.2 isDirectory
    = v'.1.verdict? v'.1.versioned v'.2 isDirectory
  excluded : ∀ isDirectory, v.1.verdict? v.1.excluded v.2 isDirectory
    = v'.1.verdict? v'.1.excluded v'.2 isDirectory

theorem Agree.refl (v : Level × List Byte) : Agree v v :=
  ⟨rfl, fun _ => rfl, fun _ => rfl, fun _ => rfl⟩

/-- Levels with the same rules agree on paths that they see alike. -/
theorem agree_of_relative {l : Level} {base : Path} {path path' : List Byte}
    (h : l.relative path = { l with base := base }.relative path') :
    Agree (l, path) ({ l with base := base }, path') := by
  have hverdict : ∀ rules isDirectory, l.verdict? rules path isDirectory
      = { l with base := base }.verdict? rules path' isDirectory := by
    intro rules isDirectory
    rw [Level.verdict?, Level.verdict?, h]
  exact ⟨rfl, hverdict _, hverdict _, hverdict _⟩

section Views

variable {views views' : List (Level × List Byte)}

/-- The innermost repository is the same. -/
theorem withinRepository_agree (h : List.Forall₂ Agree views views') :
    List.Forall₂ Agree (Levels.withinRepository views) (Levels.withinRepository views') := by
  induction h with
  | nil => exact .nil
  | @cons view view' views views' hview hviews ih =>
    rw [Levels.withinRepository, Levels.withinRepository, ← hview.isRepository]
    split
    · exact .cons hview .nil
    · -- without a repository farther on there is none here
      generalize Levels.withinRepository views = inner at ih
      generalize Levels.withinRepository views' = inner' at ih
      cases ih with
      | nil => exact .nil
      | cons hfirst hrest => exact .cons hview (.cons hfirst hrest)

theorem findSome?_agree {α : Type} {f : Level × List Byte → Option α}
    (h : List.Forall₂ Agree views views') (hf : ∀ v v', Agree v v' → f v = f v') :
    views.findSome? f = views'.findSome? f := by
  induction h with
  | nil => rfl
  | cons hview hviews ih => rw [List.findSome?_cons, List.findSome?_cons, hf _ _ hview, ih]

end Views

/-- **Levels whose views agree give the same verdict.** -/
theorem Levels.verdict?_agree {l l' : Levels}
    (h : List.Forall₂ Agree (l.views (withoutHere p.bytes)) (l'.views (withoutHere q.bytes)))
    (isDirectory : Bool) : l.verdict? p isDirectory = l'.verdict? q isDirectory := by
  have hinner := withinRepository_agree h
  rw [Levels.verdict?, Levels.verdict?]
  simp only [findSome?_agree h fun v v' hv => hv.always isDirectory,
    findSome?_agree hinner fun v v' hv => hv.versioned isDirectory,
    findSome?_agree hinner fun v v' hv => hv.excluded isDirectory]

/-! ## Levels of one directory

A level is read from a few places below its directory. If the disk has the same there under
both spellings, the levels differ in the spelling only. -/

/-- The names behind a directory that are looked at for its level. -/
def levelNames : List (List Name) :=
  let data := (Path.ofString ".git").bytes
  [[(Path.ofString ".ignore").bytes], [(Path.ofString ".gitignore").bytes], [data],
    [data, (Path.ofString "info").bytes, (Path.ofString "exclude").bytes],
    [(Path.ofString ".jj").bytes]]

theorem isName_of_levelNames (h : names ∈ levelNames) : ∀ n ∈ names, IsName n := by
  have hall : ∀ names ∈ levelNames, ∀ n ∈ names, IsName n := by decide
  exact hall names h

theorem levelNames_ne_nil (h : names ∈ levelNames) : names ≠ [] := by
  have hall : ∀ names ∈ levelNames, names ≠ [] := by decide
  exact hall names h

/-- What is read in the repository's data lies behind names, too. -/
theorem join_excludes (p : Path) :
    (p.join repositoryName).join (Path.ofString "info/exclude")
      = p.extend [repositoryName.bytes, (Path.ofString "info").bytes,
          (Path.ofString "exclude").bytes] := by
  have hjoin : Path.ofString "info/exclude"
      = (Path.ofString "info").join (Path.ofString "exclude") := by decide
  rw [hjoin, ← Path.join_assoc (by decide) (by decide) (by decide)]
  rfl

section Load

variable {d : Disk} (h : ∀ names ∈ levelNames, d.node (p.extend names) = d.node (q.extend names))

include h

theorem loadExcluded_congr : Rules.loadExcluded d p = Rules.loadExcluded d q := by
  have hdata : d.node (p.join repositoryName) = d.node (q.join repositoryName) :=
    h [repositoryName.bytes] (by decide)
  have hexcludes := h [repositoryName.bytes, (Path.ofString "info").bytes,
    (Path.ofString "exclude").bytes] (by decide)
  rw [← join_excludes, ← join_excludes] at hexcludes
  have hfile : d.hasFile (p.join repositoryName) = d.hasFile (q.join repositoryName) := by
    rw [Disk.hasFile, Disk.hasFile, hdata]
  have hline : firstLine? d (p.join repositoryName) = firstLine? d (q.join repositoryName) := by
    rw [firstLine?, firstLine?, Disk.readBytes, Disk.readBytes, hdata]
  rw [Rules.loadExcluded, Rules.loadExcluded, dataDirectory?, dataDirectory?]
  simp only [hfile, hline]
  by_cases hlinked : d.hasFile (q.join repositoryName) = true
  · -- the file leads to the same data from both
    simp only [if_pos hlinked]
  · simp only [if_neg hlinked]
    rw [Rules.load, Rules.load, Disk.readBytes, Disk.readBytes, hexcludes]

/-- **Two spellings of a directory have the same level**, but for the spelling. -/
theorem load_congr : Level.load d q = { Level.load d p with base := q } := by
  have hload : ∀ name : Path, [name.bytes] ∈ levelNames →
      Rules.load d (p.join name) = Rules.load d (q.join name) := by
    intro name hname
    have hnode : d.node (p.join name) = d.node (q.join name) := h [name.bytes] hname
    rw [Rules.load, Rules.load, Disk.readBytes, Disk.readBytes, hnode]
  have hany : ∀ name : Path, [name.bytes] ∈ levelNames →
      d.hasAny (p.join name) = d.hasAny (q.join name) := by
    intro name hname
    have hnode : d.node (p.join name) = d.node (q.join name) := h [name.bytes] hname
    rw [Disk.hasAny, Disk.hasAny, hnode]
  rw [Level.load, Level.load, loadExcluded_congr h]
  simp only [hload (Path.ofString ".ignore") (by decide),
    hload (Path.ofString ".gitignore") (by decide), hany repositoryName (by decide),
    hany otherRepositoryName (by decide)]

end Load

/-! ## On the way down

`JudgeAlike` speaks of all paths below two spellings at once. So it can be carried down: to
an entry, where the names are one longer, and into a directory, where a level is added to
each side. -/

/-- Levels that judge alike what is below one spelling of a directory and below another. -/
def JudgeAlike (l l' : Levels) (p q : Path) : Prop :=
  ∀ names, names ≠ [] → (∀ n ∈ names, IsName n) →
    List.Forall₂ Agree (l.views (withoutHere (p.extend names).bytes))
      (l'.views (withoutHere (q.extend names).bytes))

namespace JudgeAlike

variable {l l' : Levels} {d : Disk}

theorem verdict?_eq (h : JudgeAlike l l' p q) {n : Name} (hn : IsName n) (isDirectory : Bool) :
    l.verdict? (p.join ⟨n⟩) isDirectory = l'.verdict? (q.join ⟨n⟩) isDirectory :=
  Levels.verdict?_agree
    (h [n] (List.cons_ne_nil n []) (List.forall_mem_singleton.2 hn)) isDirectory

/-- They do so below each directory farther down. -/
theorem join (h : JudgeAlike l l' p q) {n : Name} (hn : IsName n) :
    JudgeAlike l l' (p.join ⟨n⟩) (q.join ⟨n⟩) := by
  intro names _ hnames
  exact h (n :: names) (List.cons_ne_nil n names) (List.forall_mem_cons.2 ⟨hn, hnames⟩)

/-- They still do when the level of the directory is added to each. -/
theorem push (h : JudgeAlike l l' p q) (hp : Steady p) (hq : Steady q)
    (hnodes : ∀ names ∈ levelNames, d.node (p.extend names) = d.node (q.extend names)) :
    JudgeAlike (l.push (.load d p)) (l'.push (.load d q)) p q := by
  intro names hne hnames
  refine .cons ?_ (h names hne hnames)
  rw [load_congr hnodes]
  refine agree_of_relative ?_
  exact ((Level.load d p).relative_extend hp hne hnames).trans
    (Level.relative_extend { Level.load d p with base := q } hq hne hnames).symm

/-- The levels above the start of a search judge alike what is below two spellings of it. -/
theorem atStart (hp : Steady p) (hq : Steady q) {found : List Name}
    (hfoundp : d.location p = .ok found) (hfoundq : d.location q = .ok found) :
    JudgeAlike (.atStart d p) (.atStart d q) p q := by
  intro names hne hnames
  let levels : Path → Levels := fun start =>
    ⟨[], (Levels.above found).map fun dir => Level.load d (Levels.absolutePath dir), start,
      Levels.absolutePath found⟩
  have hlevels : ∀ start, d.location start = .ok found → Levels.atStart d start = levels start := by
    intro start hfound
    rw [Levels.atStart, hfound]
  -- each level above is told the absolute path, and that does not depend on the spelling
  have hviews : ∀ start, Steady start →
      (levels start).views (withoutHere (start.extend names).bytes)
        = (levels p).far.map fun level =>
            (level, ((Levels.absolutePath found).join ⟨joinSlash names⟩).bytes) := by
    intro start hstart
    have habsolute := (levels start).absolute_extend hstart hne hnames
    rw [Levels.views, habsolute]
    rfl
  rw [hlevels p hfoundp, hlevels q hfoundq, hviews p hp, hviews q hq]
  exact List.forall₂_same.2 fun view _ => .refl view

end JudgeAlike

end Unimported.Ignore
