/-
Exclude patterns: the globs of the settings, read and ready to be matched.

They see a path as it stands to the root, and their wildcards run across slashes.
-/
import Unimported.Glob.Expression
import Unimported.Glob.Parse
import Unimported.Settings.Basic

set_option autoImplicit false

namespace Unimported.Settings

/-- What is wrong with exclude patterns. -/
inductive ExcludeError where
  /-- One is no glob. -/
  | malformed (pattern : String) (reason : Glob.Error)
  /-- Each is a glob, but together they have no use. -/
  | unusable (patterns : List String) (reason : Glob.SetError)
deriving DecidableEq, Repr

/-- A complaint about an exclude pattern. -/
def complaint (pattern reason : String) : String :=
  "Invalid exclude pattern '" ++ pattern ++ "': " ++ reason

/-- What is wrong with exclude patterns, in words. -/
def ExcludeError.message : ExcludeError → String
  | .malformed pattern reason =>
    complaint pattern ("error parsing glob '" ++ pattern ++ "': " ++ reason.message)
  | .unusable patterns reason => complaint (String.intercalate ", " patterns) reason.message

/-- Globs for the files to leave out. -/
abbrev Excludes := List Glob.Pattern

/-- How wildcards of exclude patterns match. -/
def excludeWildcards : Glob.Wildcards := ⟨true⟩

/-- Reads exclude patterns; the first that is no glob is the error. -/
def parseExcludes : List String → Except ExcludeError Excludes
  | [] => .ok []
  | text :: texts =>
    match Glob.parse text.toList with
    | .error reason => .error (.malformed text reason)
    | .ok pattern => (parseExcludes texts).map (pattern :: ·)

/-- Reads exclude patterns that are to be matched together, with so much room. -/
def readExcludesIn (room : Glob.Room) (texts : List String) : Except ExcludeError Excludes := do
  let patterns ← parseExcludes texts
  match room.setError? excludeWildcards patterns with
  | some reason => throw (.unusable texts reason)
  | none => return patterns

/-- Reads exclude patterns that are to be matched together. -/
def readExcludes (texts : List String) : Except ExcludeError Excludes :=
  readExcludesIn .unbounded texts

/-- The exclude patterns of the settings, if there is so much room for them. -/
def excludesIn (room : Glob.Room) (s : Settings) : Except ExcludeError Excludes :=
  readExcludesIn room s.exclude

/-- The exclude patterns of the settings. -/
def excludes (s : Settings) : Except ExcludeError Excludes := s.excludesIn .unbounded

/-- Whether one of the globs matches the path. -/
def Excludes.matchPath (excludes : Excludes) (p : Path) : Bool :=
  excludes.any fun pattern => Glob.matchesPath excludeWildcards pattern p

end Unimported.Settings
