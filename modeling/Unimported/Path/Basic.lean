/-
Paths: byte strings with components.

A path is kept as it was spelled. What it means is its list of components: cutting at the
slashes gives segments, and of the segments the empty ones and a single dot (unless it opens a
relative path) say nothing. Two paths are the same file name exactly when their components are
the same, and that is also the order in which files are listed: `src/a/x.ts` stands before
`src/a-b/x.ts`, since the shorter component is smaller.
-/
import Unimported.Text.Utf8

set_option autoImplicit false

namespace Unimported

open Text (Byte)

/-- A path: any bytes, cut into segments by slashes. -/
structure Path where
  bytes : List Byte
deriving DecidableEq, Repr

/-- The name of a directory entry. -/
abbrev Name := List Byte

/-- What one segment of a path means. -/
inductive Component where
  /-- The slash that an absolute path starts with. -/
  | root
  /-- A single dot that opens a relative path. -/
  | here
  /-- Two dots. -/
  | up
  /-- Any other name. -/
  | name (name : Name)
deriving DecidableEq, Repr

/-- The byte of the slash. -/
def slash : Byte := 0x2F

/-- The byte of the dot. -/
def dot : Byte := 0x2E

/-- Cuts bytes at each slash. -/
def splitSlash : List Byte → List Name
  | [] => [[]]
  | b :: rest =>
    match splitSlash rest with
    | [] => [[]]
    | segment :: segments =>
      if b = slash then [] :: segment :: segments else (b :: segment) :: segments

/-- Joins segments with a slash between each two. -/
def joinSlash : List Name → List Byte
  | [] => []
  | [segment] => segment
  | segment :: segments => segment ++ slash :: joinSlash segments

namespace Component

/-- The component that a segment within a path stands for. -/
def ofSegment? (segment : Name) : Option Component :=
  if segment = [] ∨ segment = [dot] then none
  else if segment = [dot, dot] then some .up
  else some (.name segment)

/-- The name, if it is one. -/
def name? : Component → Option Name
  | .name n => some n
  | _ => none

/-- The place of a component in the order: root, dot, two dots, then the names by their bytes. -/
def sortKey : Component → List Nat
  | .root => [0]
  | .here => [1]
  | .up => [2]
  | .name n => 3 :: n.map UInt8.toNat

end Component

namespace Path

/-! ## Spelling -/

/-- The path that a string spells. -/
def ofString (s : String) : Path := ⟨Text.Utf8.ofString s⟩

/-- The text of a path, with replacement characters for what is no text. -/
def display (p : Path) : String := Text.Utf8.toStringLossy p.bytes

/-- Whether the path starts at the root. -/
def isAbsolute (p : Path) : Bool := p.bytes.head? = some slash

/-- The path `other` as seen from `p`: an absolute one is left as it is, any other is appended,
with a slash unless `p` is empty or ends in one. -/
def join (p other : Path) : Path :=
  if other.isAbsolute then other
  else if p.bytes = [] ∨ p.bytes.getLast? = some slash then ⟨p.bytes ++ other.bytes⟩
  else ⟨p.bytes ++ slash :: other.bytes⟩

/-! ## Components -/

/-- The segments of the path. -/
def segments (p : Path) : List Name := splitSlash p.bytes

/-- The component that the first segment of a path stands for. -/
def firstComponent? (p : Path) (segment : Name) : Option Component :=
  if p.isAbsolute then some .root
  else if segment = [dot] then some .here
  else Component.ofSegment? segment

/-- The components of the path. -/
def components (p : Path) : List Component :=
  match p.segments with
  | [] => []
  | first :: rest => (p.firstComponent? first).toList ++ rest.filterMap Component.ofSegment?

/-- Whether two paths have the same components. -/
def same (p q : Path) : Bool := p.components = q.components

/-- The key by which paths are sorted. -/
def sortKey (p : Path) : List (List Nat) := p.components.map Component.sortKey

/-- Whether a list comes before another or is the same: the first difference counts, and a list
comes before those that go on where it ends. -/
def lexLe {α : Type} [DecidableEq α] (le : α → α → Bool) : List α → List α → Bool
  | [], _ => true
  | _ :: _, [] => false
  | a :: as, b :: bs => if a = b then lexLe le as bs else le a b

/-- Whether `p` comes before `q`, or has the same components. -/
def le (p q : Path) : Bool := lexLe (lexLe Nat.ble) p.sortKey q.sortKey

/-! ## The file name -/

/-- The last component, if it is a name. -/
def fileName? (p : Path) : Option Name := p.components.getLast?.bind Component.name?

/-- The component before the last one, if it is a name. -/
def parentName? (p : Path) : Option Name :=
  p.components.dropLast.getLast?.bind Component.name?

/-- Cuts a name before its last dot: what stands before the dot, and what stands behind it. A
name without a dot, or with none but the first byte, is not cut. -/
def splitExtension (n : Name) : Name × Option Name :=
  let after := (n.reverse.takeWhile (· != dot)).reverse
  let before := n.take (n.length - after.length - 1)
  if after.length = n.length ∨ before = [] then (n, none) else (before, some after)

/-- The file name without its extension. -/
def stem? (p : Path) : Option Name := p.fileName?.map fun n => (splitExtension n).1

/-- What stands behind the last dot of the file name. -/
def extension? (p : Path) : Option Name := p.fileName?.bind fun n => (splitExtension n).2

/-! ## Relative paths -/

/-- Whether a segment says nothing inside a path. -/
def isTrivialSegment (segment : Name) : Bool := segment = [] || segment = [dot]

/-- The segments behind the ones that spell `components`. -/
def dropComponents? : List Component → List Name → Option (List Name)
  | [], segments => some segments
  | component :: components, segments =>
    match segments.dropWhile isTrivialSegment with
    | [] => none
    | segment :: rest =>
      if Component.ofSegment? segment = some component then dropComponents? components rest
      else none

/-- The segments without the trivial ones at either end. -/
def trimSegments (segments : List Name) : List Name :=
  ((segments.dropWhile isTrivialSegment).reverse.dropWhile isTrivialSegment).reverse

/-- What is left of `p` when the components of `base` are taken from its front. The rest keeps
its spelling, less the trivial segments at its two ends. -/
def stripBase? (p base : Path) : Option Path :=
  match base.components, p.segments with
  | [], _ => some p
  | first :: components, segment :: segments =>
    let rest? :=
      if first = .root ∨ first = .here then
        if p.firstComponent? segment = some first then dropComponents? components segments
        else none
      else if p.isAbsolute ∨ segment = [dot] then none
      else dropComponents? (first :: components) (segment :: segments)
    rest?.map fun rest => ⟨joinSlash (trimSegments rest)⟩
  | _, _ => none

/-- `p` as seen from `base`, or `p` itself where it does not lie below. -/
def relativeTo (p base : Path) : Path := (p.stripBase? base).getD p

example : (ofString "src//./a.ts/").components = (ofString "src/a.ts").components := by decide
example : (ofString "p/./src//x.ts").stripBase? (ofString "./p") = none := by decide
example : (ofString "p/./src//x.ts").stripBase? (ofString "p/") = some (ofString "src//x.ts") := by
  decide

end Path

end Unimported
