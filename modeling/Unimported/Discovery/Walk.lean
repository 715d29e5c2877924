/-
Walking a directory tree.

A walk yields the files below its start, each with the path that leads to it: the start as it was
spelled, joined with the names on the way. Links are not followed. A directory or file is passed
over if an ignore rule leaves it out, or if it is hidden and no rule keeps it. The start itself is
never passed over, and may be a link. On its way a walk may meet obstacles: ignore files above its
start whose rules have no use, and directories whose paths have grown too long to be opened.
-/
import Unimported.Ignore.Level

set_option autoImplicit false

namespace Unimported.Discovery

open Text (Byte)

/-- What a walk meets. -/
inductive Visit where
  /-- A file. -/
  | file (p : Path)
  /-- Something that keeps it from going on, in words. -/
  | obstacle (reason : String)
deriving DecidableEq, Repr

/-- Whether a name is that of a hidden file or directory: it starts with a dot. -/
def isHidden (name : Name) : Bool := name.head? = some dot

/-- Whether a node is a directory. -/
def isDirectory : Node → Bool
  | .directory _ => true
  | _ => false

/-- Whether a walk passes over something with the given name and path. -/
def passesOver (levels : Ignore.Levels) (name : Name) (p : Path) (node : Node) : Bool :=
  match levels.verdict? p (isDirectory node) with
  | some .ignore => true
  | some .keep => false
  | none => isHidden name

/-- The obstacle of a directory that cannot be opened. -/
def unopened (p : Path) (cause : Trouble) : Visit :=
  .obstacle (p.display ++ ": IO error for operation on " ++ p.display ++ ": " ++ cause.message)

mutual

/-- What a walk meets from a node at a path on. `enter` gives the levels within a directory. -/
def visitsOf (enter : Ignore.Levels → Path → Ignore.Levels) (levels : Ignore.Levels) (p : Path) :
    Node → List Visit
  | .file _ => [.file p]
  | .link _ => []
  | .directory entries =>
    if Disk.pathLimit < p.bytes.length then [unopened p .nameTooLong]
    else visitsBelow enter (enter levels p) p entries

/-- What a walk meets below a path. -/
def visitsBelow (enter : Ignore.Levels → Path → Ignore.Levels) (levels : Ignore.Levels)
    (p : Path) : Entries → List Visit
  | .nil => []
  | .cons name node rest =>
    (if passesOver levels name (p.join ⟨name⟩) node then []
      else visitsOf enter levels (p.join ⟨name⟩) node)
      ++ visitsBelow enter levels p rest

end

/-- The levels within a directory: with a level of its own if ignore files count, and the same
otherwise. -/
def enter (d : Disk) (respectIgnoreFiles : Bool) (levels : Ignore.Levels) (p : Path) :
    Ignore.Levels :=
  if respectIgnoreFiles then levels.push (.load d p) else levels

/-- The levels before a walk. -/
def startLevels (d : Disk) (respectIgnoreFiles : Bool) (start : Path) : Ignore.Levels :=
  if respectIgnoreFiles then .atStart d start else ⟨[], [], start, start⟩

/-- The obstacle of ignore files without use, if there are any. -/
def defectVisit? (defects : List Glob.SetError) : Option Visit :=
  if defects.isEmpty then none
  else some (.obstacle (String.intercalate "\n" (defects.map Glob.SetError.message)))

/-- The path that stands for the standard input, which is not walked. -/
def standardInput : Path := Path.ofString "-"

/-- What a walk from a path meets. Ignore files above matter only to a directory. -/
def walk (d : Disk) (respectIgnoreFiles : Bool) (start : Path) : List Visit :=
  if start.same standardInput then []
  else
    match d.node start with
    | .ok (.directory entries) =>
      let levels := startLevels d respectIgnoreFiles start
      (defectVisit? levels.defects).toList
        ++ visitsOf (enter d respectIgnoreFiles) levels start (.directory entries)
    | .ok _ => [.file start]
    | .error _ => []

end Unimported.Discovery
