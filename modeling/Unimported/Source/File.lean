/-
Source files: candidates for the analysis, known by their paths alone.

A file is a script or an image asset, told by its extension. Its reference token is the name by
which other files would refer to it: the file name without extension, except that `index` files
go by the name of their directory.
-/
import Unimported.Path.Basic

set_option autoImplicit false

namespace Unimported.Source

/-- What a candidate file holds. -/
inductive Kind where
  /-- Program text. -/
  | script
  /-- An image. -/
  | asset
deriving DecidableEq, Repr

/-- A byte with the letters A to Z made small. -/
def lowerByte (b : Text.Byte) : Text.Byte := if 0x41 ≤ b && b ≤ 0x5A then b + 0x20 else b

namespace Kind

/-- The extensions of images, in small letters. -/
def assetExtensions : List String :=
  ["png", "jpg", "jpeg", "gif", "svg", "webp", "ico", "bmp"]

/-- The kind of a file with this extension. -/
def ofExtension (extension : Name) : Kind :=
  if assetExtensions.any fun e => Text.Utf8.ofString e = extension.map lowerByte then .asset
  else .script

/-- The kind of the file at the path, if it has an extension that is text. -/
def ofPath? (p : Path) : Option Kind :=
  match p.extension? with
  | none => none
  | some extension =>
    if Text.Utf8.isValid extension then some (ofExtension extension) else none

/-- The word for the kind. -/
def toString : Kind → String
  | .script => "Script"
  | .asset => "Asset"

end Kind

/-- A candidate file. -/
structure File where
  path : Path
  kind : Kind
deriving DecidableEq, Repr

namespace File

/-- The file at the path; a script unless its extension says otherwise. -/
def ofPath (p : Path) : File := ⟨p, (Kind.ofPath? p).getD .script⟩

end File

/-! ## Names -/

/-- The stem of the files that stand for their directory. -/
def indexStem : Name := Text.Utf8.ofString "index"

/-- The name by which other files would refer to the file at the path: its stem, or the name of
the directory for an `index` file that has a named one. -/
def referenceToken (p : Path) : String :=
  let stem := p.stem?.getD []
  Text.Utf8.toStringLossy (if stem = indexStem then p.parentName?.getD stem else stem)

/-- The extension of the path with its dot, or nothing. -/
def dottedExtension (p : Path) : String :=
  match p.extension? with
  | none => ""
  | some extension => Text.Utf8.toStringLossy (dot :: extension)

/-! ## Counting -/

/-- How many files of each kind there are. -/
structure Tally where
  scripts : Nat
  assets : Nat
deriving DecidableEq, Repr

namespace Tally

/-- Counts the files. -/
def ofFiles (files : List File) : Tally :=
  ⟨files.countP fun f => f.kind == .script, files.countP fun f => f.kind == .asset⟩

/-- The number of all files. -/
def total (t : Tally) : Nat := t.scripts + t.assets

end Tally

end Unimported.Source
