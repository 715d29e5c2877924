/-
Levels: the ignore files of a directory, and of all directories above it.

A directory may hold two ignore files of its own, and a third one within the data of a version
control system, if the directory is the root of a repository. The first of them counts always; the
other two only within a repository, and not beyond its root. A nearer directory goes before a
farther one, and the first ignore file before the second before the third.

Rules see a path from the directory of their file. Below the directory where the search starts,
paths are compared as they are spelled; the directories above it are known by their absolute
paths, so the path is made absolute for them.

A user may keep rules of their own for all repositories. They lie outside the project, and it is
taken that there are none.
-/
import Unimported.Disk.Basic
import Unimported.Ignore.Rule

set_option autoImplicit false

namespace Unimported.Ignore

open Text (Byte)

/-! ## Spelling -/

/-- The bytes without `start` at the front, if they start with it. -/
def without (start bytes : List Byte) : List Byte :=
  if start.isPrefixOf bytes then bytes.drop start.length else bytes

/-- The bytes of a path without a dot and a slash at its front. -/
def withoutHere (bytes : List Byte) : List Byte := without [dot, slash] bytes

/-- The path of the working directory. -/
def herePath : Path := ⟨[dot]⟩

/-! ## One directory -/

/-- The rules of a directory. -/
structure Level where
  /-- The directory. -/
  base : Path
  /-- The rules that count always. -/
  always : Rules
  /-- The rules that count within a repository. -/
  versioned : Rules
  /-- The rules that a repository itself keeps. -/
  excluded : Rules
  /-- What is wrong with ignore files whose rules do not count. -/
  defects : List Glob.SetError
  /-- Whether the directory is the root of a repository. -/
  isRepository : Bool

/-- The bytes of a path as seen from the directory of the level. -/
def Level.relative (l : Level) (path : List Byte) : List Byte :=
  let path := withoutHere path
  let base : Path := ⟨withoutHere l.base.bytes⟩
  if base.same herePath ∨ !path.contains slash then path
  else if base.bytes.isPrefixOf path then without [slash] (path.drop base.bytes.length)
  else path

/-- The verdict of some rules of the level on a path. -/
def Level.verdict? (l : Level) (rules : Rules) (path : List Byte) (isDirectory : Bool) :
    Option Verdict :=
  if rules.isEmpty then none else rules.verdict? (l.relative path) isDirectory

/-! ### Reading -/

/-- The rules of the file at a path. A file that cannot be read holds none. -/
def Rules.load (d : Disk) (p : Path) : Except Glob.SetError Rules :=
  match d.readBytes p with
  | .ok bytes => Rules.ofBytes bytes
  | .error _ => .ok []

/-- The rules that count. -/
def Rules.sound : Except Glob.SetError Rules → Rules
  | .ok rules => rules
  | .error _ => []

/-- What is wrong with the rules, if they do not count. -/
def Rules.defect? : Except Glob.SetError Rules → Option Glob.SetError
  | .ok _ => none
  | .error e => some e

/-- The first line of the file at a path, if it has one and it is text. -/
def firstLine? (d : Disk) (p : Path) : Option (List Char) :=
  match d.readBytes p with
  | .ok bytes => (Text.lines bytes).head?.bind Text.Utf8.decode?
  | .error _ => none

/-- The name of the repository's data in its root. -/
def repositoryName : Path := Path.ofString ".git"

/-- The name of the data of another system, which make a repository too. -/
def otherRepositoryName : Path := Path.ofString ".jj"

/-- What stands before the path in a file that stands for the repository's data. -/
def redirection : List Char := "gitdir: ".toList

/-- The directory with the repository's data. In a linked working copy a file leads to the data of
the copy, and a file among these to the data that all copies share. -/
def dataDirectory? (d : Disk) (dir : Path) : Option Path :=
  let data := dir.join repositoryName
  if d.hasFile data then do
    let line ← firstLine? d data
    if redirection.isPrefixOf line then
      let own : Path := ⟨Text.Utf8.encode (line.drop redirection.length)⟩
      let shared ← firstLine? d (own.join (Path.ofString "commondir"))
      let target : Path := ⟨Text.Utf8.encode shared⟩
      return if shared.head? = some '.' then own.join target else target
    else none
  else some data

/-- The rules that the repository of a directory keeps. -/
def Rules.loadExcluded (d : Disk) (dir : Path) : Except Glob.SetError Rules :=
  match dataDirectory? d dir with
  | some data => Rules.load d (data.join (Path.ofString "info/exclude"))
  | none => .ok []

/-- The level of a directory. -/
def Level.load (d : Disk) (dir : Path) : Level :=
  let always := Rules.load d (dir.join (Path.ofString ".ignore"))
  let versioned := Rules.load d (dir.join (Path.ofString ".gitignore"))
  let excluded := Rules.loadExcluded d dir
  { base := dir
    always := Rules.sound always
    versioned := Rules.sound versioned
    excluded := Rules.sound excluded
    defects := [always, versioned, excluded].filterMap Rules.defect?
    isRepository :=
      d.hasAny (dir.join repositoryName) || d.hasAny (dir.join otherRepositoryName) }

/-! ## All directories -/

/-- The levels of a directory and of those above it, the nearest first. -/
structure Levels where
  /-- The directories from the start of the search on. -/
  near : List Level
  /-- The directories above the start of the search. -/
  far : List Level
  /-- The directory where the search starts, as it was spelled. -/
  start : Path
  /-- The absolute path of that directory. -/
  absoluteStart : Path

namespace Levels

/-- The absolute path for the farther directories: what the path has beyond the start of the
search stands behind the absolute path of that. -/
def absolute (l : Levels) (path : List Byte) : List Byte :=
  let beyond :=
    if l.start.same herePath then path
    else without [slash] (without (withoutHere l.start.bytes) path)
  (l.absoluteStart.join ⟨beyond⟩).bytes

/-- Each level with the path that it is asked about. -/
def views (l : Levels) (path : List Byte) : List (Level × List Byte) :=
  let absolute := l.absolute path
  l.near.map (fun level => (level, path)) ++ l.far.map (fun level => (level, absolute))

/-- The views within the innermost repository: up to its root. There are none outside of all
repositories. -/
def withinRepository : List (Level × List Byte) → List (Level × List Byte)
  | [] => []
  | view :: views =>
    if view.1.isRepository then [view]
    else
      match withinRepository views with
      | [] => []
      | inner => view :: inner

/-- The verdict on a path. -/
def verdict? (l : Levels) (p : Path) (isDirectory : Bool) : Option Verdict :=
  let views := l.views (withoutHere p.bytes)
  let inner := withinRepository views
  (views.findSome? fun v => v.1.verdict? v.1.always v.2 isDirectory)
    <|> (inner.findSome? fun v => v.1.verdict? v.1.versioned v.2 isDirectory)
    <|> (inner.findSome? fun v => v.1.verdict? v.1.excluded v.2 isDirectory)

/-- The directories above one, as lists of names, the nearest first. -/
def above (names : List Name) : List (List Name) :=
  (List.range names.length).reverse.map fun n => names.take n

/-- The absolute path that names lead to. -/
def absolutePath (names : List Name) : Path :=
  if names.isEmpty then ⟨[slash]⟩ else ⟨slash :: joinSlash names⟩

/-- The levels at the start of a search, without that of the start itself. -/
def atStart (d : Disk) (start : Path) : Levels :=
  match d.location start with
  | .ok names =>
    ⟨[], (above names).map fun dir => Level.load d (absolutePath dir), start, absolutePath names⟩
  | .error _ => ⟨[], [], start, start⟩

/-- What is wrong with the ignore files above the start, the farthest directory first. -/
def defects (l : Levels) : List Glob.SetError := l.far.reverse.flatMap Level.defects

/-- The levels below, in a directory with the given level. -/
def push (l : Levels) (level : Level) : Levels := { l with near := level :: l.near }

end Levels

end Unimported.Ignore
