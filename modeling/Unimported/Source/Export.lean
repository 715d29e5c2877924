/-
Exports: the statements by which a source text makes something available to other files.

There are four of them, and each is recognised by its first words alone. Comments, string
literals and word boundaries play no part, so a commented statement counts, and so does a longer
word that ends in `export`.
-/
import Unimported.Source.Signature

set_option autoImplicit false

namespace Unimported.Source

/-- The kinds of export statement. -/
inductive Export where
  /-- The default export. -/
  | default
  /-- A list of names in braces. -/
  | names
  /-- A declaration that is exported where it stands. -/
  | declaration
  /-- Everything that another file exports. -/
  | all
deriving DecidableEq, Repr

namespace Export

/-- The kinds of export statement, in the order in which they are tried. -/
def kinds : List Export := [.default, .names, .declaration, .all]

/-- The words that may follow the keyword. -/
def tails : Export → List (List Char)
  | .default => ["default".toList]
  | .names => [['\x7b']]
  | .declaration =>
    ["const".toList, "let".toList, "var".toList, "function".toList, "class".toList]
  | .all => [['*']]

/-- The keyword, blanks, and what makes out the kind. -/
def signature (kind : Export) : Signature :=
  [.word ["export".toList], .blanks, .word kind.tails]

/-- Whether the text has an export statement of this kind. -/
def occursIn (kind : Export) (text : List Char) : Bool := kind.signature.occursIn text

end Export

/-- Whether the text exports anything. -/
def hasExports (text : List Char) : Bool := Export.kinds.any fun kind => kind.occursIn text

end Unimported.Source
