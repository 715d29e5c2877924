/-
Exclude patterns, text by text.

Exclude patterns are read together, and one that is of no use makes all of them useless. Otherwise
each stands by itself: patterns can be read exactly when each of them can, and they match what one
of them matches. So more patterns match more, and a part of patterns that can be read can be read.
-/
import Mathlib.Data.List.Forall2
import Unimported.Proofs.Glob.Braces
import Unimported.Settings.Exclude

set_option autoImplicit false

namespace Unimported.Settings

variable {texts first behind : List String} {patterns : Excludes}

/-! ## Reading

Reading gives a glob for each text, and then looks at all globs. With all the room that they
need that look is one at each of them, so a list is read by its parts, and any sublist can
be read too. -/

theorem parseExcludes_cons_eq_ok_iff {text : String} :
    parseExcludes (text :: texts) = .ok patterns ↔
      ∃ pattern rest, Glob.parse text.toList = .ok pattern ∧ parseExcludes texts = .ok rest ∧
        patterns = pattern :: rest := by
  rw [parseExcludes]
  cases Glob.parse text.toList with
  | error reason => simp
  | ok pattern =>
    cases parseExcludes texts with
    | error e => simp [Except.map]
    | ok rest => simp [Except.map, eq_comm]

theorem parseExcludes_eq_ok_iff :
    parseExcludes texts = .ok patterns ↔
      List.Forall₂ (fun text pattern => Glob.parse text.toList = .ok pattern) texts patterns := by
  induction texts generalizing patterns with
  | nil => simp [parseExcludes, eq_comm]
  | cons text texts ih =>
    simp only [parseExcludes_cons_eq_ok_iff, List.forall₂_cons_left_iff, ih]

/-- The text is this glob, and the glob can be used. -/
def Reads (text : String) (pattern : Glob.Pattern) : Prop :=
  Glob.parse text.toList = .ok pattern ∧ ¬ Glob.Unusable excludeWildcards pattern

theorem forall₂_reads_iff :
    List.Forall₂ Reads texts patterns ↔
      List.Forall₂ (fun text pattern => Glob.parse text.toList = .ok pattern) texts patterns ∧
        ∀ pattern ∈ patterns, ¬ Glob.Unusable excludeWildcards pattern := by
  induction texts generalizing patterns with
  | nil =>
    rw [List.forall₂_nil_left_iff, List.forall₂_nil_left_iff]
    exact ⟨fun h => ⟨h, by simp [h]⟩, fun h => h.1⟩
  | cons text texts ih =>
    cases patterns with
    | nil => simp
    | cons pattern patterns =>
      simp only [List.forall₂_cons, ih, Reads, List.forall_mem_cons]
      exact and_and_and_comm

/-- Exclude patterns are read if each of them is a glob and nothing is wrong with them as a set. -/
theorem readExcludesIn_eq_ok_iff {room : Glob.Room} :
    readExcludesIn room texts = .ok patterns ↔
      parseExcludes texts = .ok patterns ∧ room.setError? excludeWildcards patterns = none := by
  rw [readExcludesIn]
  cases parseExcludes texts with
  | error e => simp [bind, Except.bind]
  | ok parsed =>
    simp only [bind, Except.bind, Except.ok.injEq]
    cases hset : room.setError? excludeWildcards parsed with
    | none =>
      simp only [pure, Except.pure, Except.ok.injEq]
      exact ⟨fun h => ⟨h, h ▸ hset⟩, fun h => h.1⟩
    | some reason =>
      simp only [throw, throwThe, MonadExceptOf.throw, reduceCtorEq, false_iff, not_and]
      rintro rfl
      simp [hset]

/-- **Exclude patterns are read one by one**, with all the room that they need. -/
theorem readExcludes_eq_ok_iff :
    readExcludes texts = .ok patterns ↔ List.Forall₂ Reads texts patterns := by
  rw [forall₂_reads_iff, ← parseExcludes_eq_ok_iff, ← Glob.setError?_eq_none_iff]
  exact readExcludesIn_eq_ok_iff

theorem readExcludes_of_toOption (h : (readExcludes texts).toOption = some patterns) :
    readExcludes texts = .ok patterns := by
  cases hread : readExcludes texts with
  | error e =>
    rw [hread] at h
    cases h
  | ok read =>
    rw [hread] at h
    exact congrArg Except.ok (Option.some.inj h)

/-- Patterns can be read together exactly when both parts can, and they are those of the parts. -/
theorem readExcludes_append :
    readExcludes (first ++ behind) = .ok patterns ↔
      ∃ before after, readExcludes first = .ok before ∧ readExcludes behind = .ok after ∧
        patterns = before ++ after := by
  simp only [readExcludes_eq_ok_iff]
  constructor
  · intro h
    refine ⟨patterns.take first.length, patterns.drop first.length, ?_, ?_,
      (List.take_append_drop _ _).symm⟩
    · simpa using List.forall₂_take first.length h
    · simpa using List.forall₂_drop first.length h
  · rintro ⟨before, after, hfirst, hbehind, rfl⟩
    exact List.rel_append hfirst hbehind

theorem exists_reads (h : List.Forall₂ Reads texts patterns) {text : String}
    (htext : text ∈ texts) : ∃ pattern ∈ patterns, Reads text pattern := by
  induction h with
  | nil => cases htext
  | cons hreads _ ih =>
    rcases List.mem_cons.1 htext with rfl | htext
    · exact ⟨_, List.mem_cons_self, hreads⟩
    · obtain ⟨pattern, hpattern, hreads⟩ := ih htext
      exact ⟨pattern, List.mem_cons_of_mem _ hpattern, hreads⟩

/-- Some of the patterns that can be read together can be read. -/
theorem readExcludes_of_subset (h : readExcludes behind = .ok patterns) (hsub : first ⊆ behind) :
    ∃ fewer, readExcludes first = .ok fewer ∧ fewer ⊆ patterns := by
  simp only [readExcludes_eq_ok_iff] at h ⊢
  induction first with
  | nil => exact ⟨[], .nil, List.nil_subset _⟩
  | cons text first ih =>
    obtain ⟨htext, hsub⟩ := List.cons_subset.1 hsub
    obtain ⟨fewer, hfewer, hpatterns⟩ := ih hsub
    obtain ⟨pattern, hpattern, hreads⟩ := exists_reads h htext
    exact ⟨pattern :: fewer, .cons hreads hfewer, List.cons_subset.2 ⟨hpattern, hpatterns⟩⟩

/-! ## Matching

To match is to match one of the patterns, so lists of patterns match as their parts do. -/

theorem Excludes.matchPath_append (before after : Excludes) (p : Path) :
    Excludes.matchPath (before ++ after) p = (before.matchPath p || after.matchPath p) :=
  List.any_append

theorem Excludes.matchPath_of_subset {fewer : Excludes} (hsub : fewer ⊆ patterns) {p : Path}
    (h : fewer.matchPath p = true) : patterns.matchPath p = true := by
  obtain ⟨pattern, hmem, hmatches⟩ := List.any_eq_true.1 h
  exact List.any_eq_true.2 ⟨pattern, hsub hmem, hmatches⟩

end Unimported.Settings
