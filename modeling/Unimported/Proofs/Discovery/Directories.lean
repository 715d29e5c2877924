/-
Leaving out directories by name.

The usual exclude patterns name directories: two stars, a plain name and two stars again. Such
patterns can always be read, and they leave out a file exactly if one of the names is a whole
segment of its path from the root, and not the last one. So `distance.ts` is not left out with
`dist`, nor is a file that is called `dist`. `directory_excludes_exact` is the main result.
-/
import Unimported.Proofs.Discovery.Algebra
import Unimported.Proofs.Glob.Directory

set_option autoImplicit false

namespace Unimported.Settings

/-! ## Patterns

A plain name stands for itself in a glob, so the pattern can be written down. The names are
a type of their own, since all that follows needs them to be plain. -/

/-- A name of directories that can stand in a glob as it is: it is not empty, and each of its
characters stands for itself. -/
structure DirectoryName where
  text : String
  nonempty : text.toList ≠ []
  plain : ∀ c ∈ text.toList, Glob.IsPlain c

namespace DirectoryName

/-- The name as it stands in a path. -/
def bytes (name : DirectoryName) : Name := Text.Utf8.ofString name.text

/-- The exclude pattern for what lies in directories of the name. -/
def exclude (name : DirectoryName) : String := "**/" ++ name.text ++ "/**"

/-- The exclude pattern as it is read. -/
def pattern (name : DirectoryName) : Glob.Pattern := Glob.directory name.text.toList

theorem slash_not_mem (name : DirectoryName) : '/' ∉ name.text.toList :=
  fun h => absurd (name.plain _ h) (by decide)

theorem not_isTrivial (name : DirectoryName) (h : name.text ≠ ".") :
    Path.isTrivialSegment name.bytes = false := by
  have htext : Text.Utf8.toStringLossy name.bytes = name.text :=
    Text.Utf8.toStringLossy_ofString name.text
  refine Bool.eq_false_iff.2 fun htrivial => ?_
  rcases Path.isTrivialSegment_iff.1 htrivial with hempty | hdot
  · rw [hempty] at htext
    exact name.nonempty (htext ▸ rfl)
  · rw [hdot] at htext
    exact h htext.symm

theorem reads (name : DirectoryName) : Reads name.exclude name.pattern := by
  have htext : name.exclude.toList = Glob.directoryText name.text.toList := by
    rw [exclude, String.toList_append, String.toList_append, List.append_assoc, Glob.directoryText]
  refine ⟨?_, Glob.not_unusable_directory⟩
  rw [htext]
  exact Glob.parse_directoryText name.plain

end DirectoryName

variable {names : List DirectoryName} {p : Path}

/-- **Such patterns can be read**, however many there are. -/
theorem readExcludes_directories (names : List DirectoryName) :
    readExcludes (names.map DirectoryName.exclude) = .ok (names.map DirectoryName.pattern) := by
  rw [readExcludes_eq_ok_iff, List.forall₂_map_left_iff, List.forall₂_map_right_iff,
    List.forall₂_same]
  exact fun name _ => name.reads

/-- **They match what lies in a directory of one of the names.** -/
theorem matchPath_directories :
    Excludes.matchPath (names.map DirectoryName.pattern) p = true ↔
      ∃ name ∈ names, name.bytes ∈ p.directories := by
  rw [Excludes.matchPath, List.any_map, List.any_eq_true]
  refine exists_congr fun name => and_congr_right fun _ => ?_
  exact Glob.matchesPath_directory_iff name.nonempty name.slash_not_mem

end Unimported.Settings

namespace Unimported.Discovery

open Settings (DirectoryName)
open Source (File)

/-! ## Files

The patterns test each candidate by the directories on its path as it is spelled. Components
determine these except for single dots, so all spellings of a file pass or none does, if no
name is a single dot or if each file has one spelling. -/

variable {d : Disk} {s : Settings} {root start : Path} {names : List DirectoryName}

/-- The directories of installed packages. -/
def nodeModules : DirectoryName := ⟨"node_modules", by decide, by simp [Glob.IsPlain]⟩

/-- The directories of what has been built. -/
def dist : DirectoryName := ⟨"dist", by decide, by simp [Glob.IsPlain]⟩

end Unimported.Discovery
