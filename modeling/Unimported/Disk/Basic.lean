/-
Disks: a tree of directories, files and symbolic links.

A disk has a working directory, from which relative paths start. Paths are followed segment by
segment: two dots lead to the directory above, whatever link led here, and a link is replaced by
the path that it holds, as seen from the directory it lies in. The number of links on the way is
limited, so a path that leads in circles ends in an error. The lengths of names and paths are
limited too, and no path holds a null byte.
-/
import Unimported.Path.Basic

set_option autoImplicit false

namespace Unimported

open Text (Byte)

mutual

/-- What a name on a disk can stand for. -/
inductive Node where
  | file (bytes : List Byte)
  | link (target : Path)
  | directory (entries : Entries)

/-- The entries of a directory, in order. -/
inductive Entries where
  | nil
  | cons (name : Name) (node : Node) (rest : Entries)

end

namespace Entries

/-- What a name stands for. -/
def get? (name : Name) : Entries → Option Node
  | .nil => none
  | .cons n node rest => if n = name then some node else rest.get? name

/-- Lets a name stand for something; a new one goes to the end. -/
def set (name : Name) (new : Node) : Entries → Entries
  | .nil => .cons name new .nil
  | .cons n node rest => if n = name then .cons n new rest else .cons n node (rest.set name new)

end Entries

namespace Node

/-- What a list of names leads to, by directories alone. -/
def at? : List Name → Node → Option Node
  | [], node => some node
  | name :: names, .directory entries => (entries.get? name).bind (at? names)
  | _ :: _, _ => none

/-- Puts something where a list of names leads, with the directories that are missing on the
way. Nothing changes where the names lead through something else. -/
def put : Node → List Name → Node → Node
  | _, [], new => new
  | .directory entries, name :: names, new =>
    .directory (entries.set name (put ((entries.get? name).getD (.directory .nil)) names new))
  | other, _ :: _, _ => other

end Node

/-- Why a file cannot be read or written. -/
inductive Trouble where
  | notFound
  | notADirectory
  | isADirectory
  /-- The file is no UTF-8 text. -/
  | notText
  | tooManyLinks
  /-- A name on the way, or the whole path, is too long. -/
  | nameTooLong
  /-- The path holds a null byte. -/
  | nullByte
deriving DecidableEq, Repr

/-- The trouble in words. -/
def Trouble.message : Trouble → String
  | .notFound => "No such file or directory (os error 2)"
  | .notADirectory => "Not a directory (os error 20)"
  | .isADirectory => "Is a directory (os error 21)"
  | .notText => "stream did not contain valid UTF-8"
  | .tooManyLinks => "Too many levels of symbolic links (os error 40)"
  | .nameTooLong => "File name too long (os error 36)"
  | .nullByte => "file name contained an unexpected NUL byte"

/-- A tree of files and a place in it from which relative paths start. -/
structure Disk where
  root : Node
  cwd : List Name

/-- Where a path leads: to something that is there, or to a name that is free in a directory. -/
inductive Place where
  | taken (names : List Name)
  | free (directory : List Name) (name : Name)
deriving DecidableEq, Repr

namespace Disk

/-! ## Following paths -/

/-- A node of a disk, together with the way to it. -/
structure Position where
  node : Node
  /-- The directories on the way, the innermost first: the name that was taken in each of them,
  and its entries. -/
  trail : List (Name × Entries)

namespace Position

/-- The names that lead from the root to the position. -/
def names (here : Position) : List Name := (here.trail.map Prod.fst).reverse

/-- The directory above; that of the root is the root. -/
def up (here : Position) : Position :=
  match here.trail with
  | [] => here
  | (_, entries) :: trail => ⟨.directory entries, trail⟩

/-- The node that a name stands for among the entries of the directory at the position. -/
def enter (here : Position) (name : Name) (entries : Entries) (node : Node) : Position :=
  ⟨node, (name, entries) :: here.trail⟩

/-- Where a list of names leads from the position, by directories alone. -/
def descend? (here : Position) : List Name → Option Position
  | [] => some here
  | name :: names =>
    match here.node with
    | .directory entries =>
      (entries.get? name).bind fun node => descend? (here.enter name entries node) names
    | _ => none

end Position

/-- The largest number of bytes of a name. -/
def nameLimit : Nat := 255

/-- The largest number of bytes of a path. -/
def pathLimit : Nat := 4095

/-- Follows segments from a position. `onLink` goes on at a link, from the directory that it lies
in, with the segments behind it. -/
def followSegments (onLink : Position → Path → List Name → Except Trouble Place)
    (here : Position) : List Name → Except Trouble Place
  | [] => .ok (.taken here.names)
  | segment :: rest =>
    match here.node with
    | .directory entries =>
      if Path.isTrivialSegment segment then followSegments onLink here rest
      else if segment = [dot, dot] then followSegments onLink here.up rest
      else if nameLimit < segment.length then .error .nameTooLong
      else
        match entries.get? segment with
        | none => if rest.isEmpty then .ok (.free here.names segment) else .error .notFound
        | some (.link target) => onLink here target rest
        | some node => followSegments onLink (here.enter segment entries node) rest
    | _ => .error .notADirectory

/-- Follows segments from a position, by way of at most so many links. -/
def followFrom (top : Position) : Nat → Position → List Name → Except Trouble Place
  | 0, here, segments => followSegments (fun _ _ _ => .error .tooManyLinks) here segments
  | links + 1, here, segments =>
    followSegments
      (fun here target rest =>
        followFrom top links (if target.isAbsolute then top else here) (target.segments ++ rest))
      here segments

/-- The largest number of links on the way to a file. -/
def linkLimit : Nat := 40

/-- The position of the root. -/
def top (d : Disk) : Position := ⟨d.root, []⟩

/-- Where a path leads. -/
def resolve (d : Disk) (p : Path) : Except Trouble Place :=
  if p.bytes.contains 0 then .error .nullByte
  else if p.bytes.isEmpty then .error .notFound
  else if pathLimit < p.bytes.length then .error .nameTooLong
  else if p.isAbsolute then followFrom d.top linkLimit d.top p.segments
  else
    match d.top.descend? d.cwd with
    | some here => followFrom d.top linkLimit here p.segments
    | none => .error .notADirectory

/-- The names that lead from the root to what is at a path, by directories alone. -/
def location (d : Disk) (p : Path) : Except Trouble (List Name) := do
  match ← d.resolve p with
  | .taken names => return names
  | .free _ _ => throw .notFound

/-- What is at a path. -/
def node (d : Disk) (p : Path) : Except Trouble Node := do
  match d.root.at? (← d.location p) with
  | some node => return node
  | none => throw .notFound

/-- Whether there is anything at a path. -/
def hasAny (d : Disk) (p : Path) : Bool :=
  match d.node p with
  | .ok _ => true
  | .error _ => false

/-- Whether there is a directory at a path. -/
def hasDirectory (d : Disk) (p : Path) : Bool :=
  match d.node p with
  | .ok (.directory _) => true
  | _ => false

/-- Whether there is a file at a path. -/
def hasFile (d : Disk) (p : Path) : Bool :=
  match d.node p with
  | .ok (.file _) => true
  | _ => false

/-! ## Reading and writing -/

/-- The bytes of the file at a path. -/
def readBytes (d : Disk) (p : Path) : Except Trouble (List Byte) := do
  match ← d.node p with
  | .file bytes => return bytes
  | _ => throw .isADirectory

/-- The text of the file at a path, with replacement characters for what is no text. -/
def readLossy (d : Disk) (p : Path) : Except Trouble String :=
  (d.readBytes p).map Text.Utf8.toStringLossy

/-- The text of the file at a path, all of which must be text. -/
def readText (d : Disk) (p : Path) : Except Trouble String := do
  match Text.Utf8.decode? (← d.readBytes p) with
  | some text => return String.ofList text
  | none => throw .notText

/-- Writes the file at a path; what was in it is lost. -/
def write (d : Disk) (p : Path) (bytes : List Byte) : Except Trouble Disk := do
  match ← d.resolve p with
  | .free directory name => return { d with root := d.root.put (directory ++ [name]) (.file bytes) }
  | .taken names =>
    match d.root.at? names with
    | some (.file _) => return { d with root := d.root.put names (.file bytes) }
    | _ => throw .isADirectory

/-- Makes a directory at a path, unless there is something. -/
def makeDirectory (d : Disk) (p : Path) : Except Trouble Disk := do
  match ← d.resolve p with
  | .free directory name =>
    return { d with root := d.root.put (directory ++ [name]) (.directory .nil) }
  | .taken _ => return d

/-- Makes directories along segments, from the front on, behind those in `done`. -/
def makeDirectoriesFrom (d : Disk) (done : List Name) : List Name → Except Trouble Disk
  | [] => .ok d
  | segment :: rest => do
    let done := done ++ [segment]
    let p : Path := ⟨joinSlash done⟩
    let d ← if p.bytes.isEmpty then pure d else d.makeDirectory p
    makeDirectoriesFrom d done rest

/-- Makes a directory at a path, and those on the way to it. -/
def makeDirectories (d : Disk) (p : Path) : Except Trouble Disk :=
  d.makeDirectoriesFrom [] p.segments

/-- Makes a link at a path where nothing is yet. -/
def makeLink (d : Disk) (p target : Path) : Except Trouble Disk := do
  match ← d.resolve p with
  | .free directory name =>
    return { d with root := d.root.put (directory ++ [name]) (.link target) }
  | .taken _ => throw .isADirectory

end Disk

end Unimported
