/-
Discovery: the candidate files of a project.

Each target is walked, files that are excluded or have another extension are left out, and the
rest is sorted. Where two targets lead to the same file, the spelling of the earlier one is kept.
-/
import Unimported.Discovery.Walk
import Unimported.Log
import Unimported.Scan.Run
import Unimported.Settings.Exclude

set_option autoImplicit false

namespace Unimported

/-- Why there are no candidate files. -/
inductive DiscoveryError where
  /-- There is nothing at the root. -/
  | rootNotFound (root : Path)
  /-- There is something else than a directory at the root. -/
  | notADirectory (root : Path)
  /-- An exclude pattern is no glob. -/
  | invalidExclude (e : Settings.ExcludeError)
deriving DecidableEq, Repr

/-- What went wrong, in words. -/
def DiscoveryError.message : DiscoveryError → String
  | .rootNotFound root => "Directory not found: " ++ root.display
  | .notADirectory root => "Not a directory: " ++ root.display
  | .invalidExclude e => e.message

namespace Discovery

open Source (File)

/-! ## Candidates -/

/-- What becomes of something that a walk has met. -/
inductive Candidate where
  /-- It is a candidate. -/
  | found (file : File)
  /-- An exclude pattern matches it. -/
  | excluded (p : Path)
  /-- Its extension is none of those that are looked for. -/
  | passed
  /-- It is an obstacle, described in words. -/
  | obstacle (reason : String)

/-- Whether a file with the extension is looked for: it must be text, and one of the extensions of
the settings. -/
def wantsExtension (s : Settings) (extension : Name) : Bool :=
  Text.Utf8.isValid extension && s.acceptsExtension extension

/-- What becomes of a file. Exclude patterns see its path from the root. -/
def Candidate.ofPath (s : Settings) (excludes : Settings.Excludes) (root p : Path) : Candidate :=
  if excludes.matchPath (p.relativeTo root) then .excluded p
  else
    match p.extension? with
    | some extension => if wantsExtension s extension then .found (File.ofPath p) else .passed
    | none => .passed

/-- What becomes of something that a walk has met. -/
def Candidate.ofVisit (s : Settings) (excludes : Settings.Excludes) (root : Path) :
    Visit → Candidate
  | .file p => .ofPath s excludes root p
  | .obstacle reason => .obstacle reason

/-- The candidate file, if it is one. -/
def Candidate.file? : Candidate → Option File
  | .found file => some file
  | _ => none

/-- The line about a file, unless there is nothing to say. -/
def Candidate.line? : Candidate → Option Log.Line
  | .found file => some (Log.trace ("Found " ++ file.kind.toString ++ ": " ++ file.path.display))
  | .excluded p => some (Log.trace ("Excluding: " ++ p.display))
  | .obstacle reason => some (Log.trace ("Skipping unreadable entry: " ++ reason))
  | .passed => none

/-! ## Targets -/

/-- Where the search starts: at each target as seen from the root, or at the root itself if there
are no targets. -/
def starts (s : Settings) (root : Path) : List Path :=
  if s.targets.isEmpty then [root] else s.targets.map root.join

/-- What a walk from one start comes to. -/
def candidates (d : Disk) (s : Settings) (excludes : Settings.Excludes) (root start : Path) :
    List Candidate :=
  (walk d s.respectIgnoreFiles start).map (Candidate.ofVisit s excludes root)

/-- The lines about one start. -/
def startLog (d : Disk) (s : Settings) (excludes : Settings.Excludes) (root start : Path) :
    List Log.Line :=
  if d.hasAny start then (candidates d s excludes root start).filterMap Candidate.line?
  else [Log.trace ("Directory does not exist: " ++ start.display)]

/-! ## Order -/

/-- The list without the elements that are the same file as the one before them. -/
def dropRepeats : List File → List File
  | [] => []
  | file :: rest =>
    match dropRepeats rest with
    | [] => [file]
    | next :: others =>
      if file.path.same next.path then file :: others else file :: next :: others

/-- The files in the order of their components, each once. -/
def arrange (files : List File) : List File :=
  dropRepeats (files.mergeSort fun f g => f.path.le g.path)

/-! ## All targets -/

/-- The candidate files under all targets. -/
def files (d : Disk) (s : Settings) (excludes : Settings.Excludes) (root : Path) : List File :=
  arrange
    ((starts s root).flatMap fun start =>
      (candidates d s excludes root start).filterMap Candidate.file?)

/-- Finds the candidate files of the project at a root, with so much room for the exclude
patterns. -/
def findIn (room : Glob.Room) (d : Disk) (s : Settings) (root : Path) :
    Scan.Found DiscoveryError :=
  if !d.hasAny root then ⟨[], .error (.rootNotFound root)⟩
  else if !d.hasDirectory root then ⟨[], .error (.notADirectory root)⟩
  else
    match s.excludesIn room with
    | .error e => ⟨[], .error (.invalidExclude e)⟩
    | .ok excludes =>
      let found := files d s excludes root
      ⟨[Log.debug ("Scanning for files in: " ++ root.display)]
          ++ (starts s root).flatMap (startLog d s excludes root)
          ++ [Log.debug ("Found " ++ toString found.length ++ " files")],
        .ok found⟩

/-- Finds the candidate files of the project at a root. -/
def find (d : Disk) (s : Settings) (root : Path) : Scan.Found DiscoveryError :=
  findIn .unbounded d s root

end Discovery

end Unimported
